import SpanForest.Text.Quoted
import SpanForest.Text.Utf8

/-!
What can go wrong with files and archives, and its wording. Some of it the operating system or the
archive format reports of a file, and the command line tells the user about that; the rest is not
expected of files and ends the program.
-/

namespace SpanForest

inductive DataFlaw where
  | blockType
  | storedLengths
  | tooManySymbols
  | lengthCodes
  | lengthRepeat
  | missingEnd
  | literalCodes
  | distanceCodes
  | literalCode
  | distanceCode
  | tooFarBack
  deriving DecidableEq

def DataFlaw.label : DataFlaw → String
  | .blockType => "invalid block type"
  | .storedLengths => "invalid stored block lengths"
  | .tooManySymbols => "too many length or distance symbols"
  | .lengthCodes => "invalid code lengths set"
  | .lengthRepeat => "invalid bit length repeat"
  | .missingEnd => "invalid code -- missing end-of-block"
  | .literalCodes => "invalid literal/lengths set"
  | .distanceCodes => "invalid distances set"
  | .literalCode => "invalid literal/length code"
  | .distanceCode => "invalid distance code"
  | .tooFarBack => "invalid distance too far back"

inductive FileFault where
  | notFound (path : String)
  | notDirectory (path : String)
  | isDirectory (path : String)
  | nameTooLong (path : String)
  | nullByte
  | noPath
  | undecodable (error : Utf8.DecodeError)
  | unencodable (error : Utf8.EncodeError)
  | notArchive (start : List UInt8)
  | unknownMethod
  | endedEarly
  | badChecksum (stored computed : Nat)
  | badLength
  | badData (flaw : DataFlaw)

namespace FileFault

def numbered (number : Nat) (text path : String) : String :=
  String.join ["[Errno ", toString number, "] ", text, ": ", Text.quote path]

def hexText (n : Nat) : String := String.ofList ('0' :: 'x' :: Text.hexNumeral n)

def message : FileFault → String
  | .notFound path => numbered 2 "No such file or directory" path
  | .notDirectory path => numbered 20 "Not a directory" path
  | .isDirectory path => numbered 21 "Is a directory" path
  | .nameTooLong path => numbered 36 "File name too long" path
  | .nullByte => "embedded null byte"
  | .noPath => "expected str, bytes or os.PathLike object, not list"
  | .undecodable error => error.message
  | .unencodable error => error.message
  | .notArchive start => String.join ["Not a gzipped file (", Text.quoteBytes start, ")"]
  | .unknownMethod => "Unknown compression method"
  | .endedEarly => "Compressed file ended before the end-of-stream marker was reached"
  | .badChecksum stored computed =>
      String.join ["CRC check failed ", hexText stored, " != ", hexText computed]
  | .badLength => "Incorrect length of data produced"
  | .badData flaw => String.join ["Error -3 while decompressing data: ", flaw.label]

def isReported : FileFault → Bool
  | .notFound _ | .notDirectory _ | .isDirectory _ | .nameTooLong _ => true
  | .notArchive _ | .unknownMethod | .badChecksum _ _ | .badLength => true
  | _ => false

end FileFault

end SpanForest
