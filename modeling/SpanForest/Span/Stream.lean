import SpanForest.Files.Directory
import SpanForest.Gzip.Archive
import SpanForest.Span.Reader

/-!
Reading spans line by line. A blank line holds none. A line that is no JSON, or neither an object nor
an array, is passed over with a warning that gives its number; a fault that a line cannot be passed
over for ends the reading, and the warnings before it stand.
-/

namespace SpanForest

structure LineWarning where
  line : Nat
  fault : Fault

def LineWarning.message (w : LineWarning) : String :=
  String.join ["Skipping malformed line ", toString w.line, ": ", w.fault.message]

/-- What reading came to: the spans or the fault that ended it, and the warnings until then. -/
structure Reading where
  outcome : Except Fault (List Span)
  warnings : List LineWarning

namespace Reading

def prepend (spans : List Span) (warnings : List LineWarning) (r : Reading) : Reading :=
  ⟨r.outcome.map (spans ++ ·), warnings ++ r.warnings⟩

def interrupted (cause : Fault) : Reading := ⟨.error cause, []⟩

end Reading

namespace Fault

/-- Whether a line with this fault is passed over with a warning. -/
def isOfLine : Fault → Bool
  | .badSyntax _ => true
  | .notSpans => true
  | _ => false

end Fault

/-- Reads lines that are numbered from `number` on, and ends as `ending` says. -/
def readLines (ending : Reading) (number : Nat) : List (List Char) → Reading
  | [] => ending
  | line :: rest =>
      let shown := Text.trimList line
      if shown.isEmpty then readLines ending (number + 1) rest
      else
        match Span.readLine shown with
        | .ok spans => (readLines ending (number + 1) rest).prepend spans []
        | .error fault =>
            if fault.isOfLine then
              (readLines ending (number + 1) rest).prepend [] [⟨number, fault⟩]
            else .interrupted fault

def atEnd : Option Fault → Reading
  | none => ⟨.ok [], []⟩
  | some fault => .interrupted fault

def readText (cs : List Char) : Reading := readLines (atEnd none) 1 (Text.lines '\n' cs)

def readBytes (bytes : List UInt8) : Reading :=
  readLines (atEnd none) 1 ((Text.lines 0x0a bytes).map Utf8.decode)

def readSource (s : TextSource) : Reading := readLines (atEnd (s.fault.map .file)) 1 s.lines

def standardInput : String := "-"

def namesArchive (path : String) : Bool := ".gz".toList.isSuffixOf path.toList

def decodeFile (path : String) (bytes : List UInt8) : TextSource :=
  if namesArchive path then (Gzip.unpack bytes).decode else (ByteSource.ofBytes bytes).decode

def openInput (d : Directory) (input : List Char) (path : String) : TextSource :=
  if path = standardInput then ⟨input, none⟩
  else
    match d.read path with
    | .error fault => ⟨[], some fault⟩
    | .ok bytes => decodeFile path bytes

def readPath (d : Directory) (input : List Char) (path : String) : Reading :=
  readSource (openInput d input path)

end SpanForest
