import SpanForest.Files.Fault
import SpanForest.Json.SyntaxError
import SpanForest.Text.Quoted
import SpanForest.Value.Basic

/-!
What can go wrong with spans and their fields, one constructor a cause, and the wording of each. A
reader of spans passes over an element that is malformed; a timestamp or port that is infinite is
not of that sort and stops it.
-/

namespace SpanForest

inductive Fault where
  | unordered (left right : Kind)
  | notAKey (kind : Kind)
  | noLength (kind : Kind)
  | noField (kind : Kind) (field : String)
  | noElements (kind : Kind)
  | notNumeric (kind : Kind)
  | notText (position : Nat) (kind : Kind)
  | badNumeral (text : Text)
  | infiniteNumber
  | undefinedNumber
  | missingField (name : String)
  | missingOther
  | missingId
  | missingValue
  | circular (node : String)
  | badSyntax (error : Json.SyntaxError)
  | notSpans
  | unregistered (key : String)
  | file (fault : FileFault)

namespace Fault

def numeralLimit : Nat := 200

def message : Fault → String
  | .unordered left right =>
      String.join
        ["'<' not supported between instances of '", left.label, "' and '", right.label, "'"]
  | .notAKey kind => String.join ["unhashable type: '", kind.label, "'"]
  | .noLength kind => String.join ["object of type '", kind.label, "' has no len()"]
  | .noField kind field =>
      String.join ["'", kind.label, "' object has no attribute '", field, "'"]
  | .noElements kind => String.join ["'", kind.label, "' object is not iterable"]
  | .notNumeric kind =>
      String.join
        ["int() argument must be a string, a bytes-like object or a real number, not '", kind.label,
          "'"]
  | .notText position kind =>
      String.join
        ["sequence item ", toString position, ": expected str instance, ", kind.label, " found"]
  | .badNumeral text =>
      String.join
        ["invalid literal for int() with base 10: ",
          String.ofList ((Text.quoteList text).take numeralLimit)]
  | .infiniteNumber => "cannot convert float infinity to integer"
  | .undefinedNumber => "cannot convert float NaN to integer"
  | .missingField name => Text.quote name
  | .missingOther => "other must not be None"
  | .missingId => "id is None"
  | .missingValue => "value is None"
  | .circular node => String.join ["circular dependency on ", node]
  | .badSyntax error => error.message
  | .notSpans => "Line is not a JSON array or object"
  | .unregistered key => key
  | .file fault => fault.message

def isMalformed : Fault → Bool
  | .infiniteNumber => false
  | _ => true

end Fault

end SpanForest
