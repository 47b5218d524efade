import SpanForest.Fault
import SpanForest.Json.Numbers
import SpanForest.Json.Strings

/-!
Reading JSON text: one value between blanks. The names for no number and for the infinities are
accepted. A member that is written twice keeps its first place and its last value. A fault lies
where reading stops, unless it lies in a string. Values may be nested as deeply as the text has
them.
-/

namespace SpanForest.Json

def isSpace (c : Char) : Bool := c = ' ' || c = '\t' || c = '\n' || c = '\r'

def skipSpace (cs : List Char) : List Char := cs.dropWhile isSpace

def constants : List (List Char × Value) :=
  [("null".toList, .null), ("true".toList, .bool true), ("false".toList, .bool false),
    ("NaN".toList, .float .nan), ("Infinity".toList, .float (.infinite false)),
    ("-Infinity".toList, .float (.infinite true))]

def readConstant (cs : List Char) : Option (Value × List Char) :=
  (constants.find? fun entry => entry.1.isPrefixOf cs).map fun entry =>
    (entry.2, cs.drop entry.1.length)

def readScalar (cs : List Char) : Step Value :=
  match readConstant cs with
  | some r => .ok r
  | none =>
      match readNumber cs with
      | some r => .ok r
      | none => .error ⟨.expectingValue, cs⟩

def readName (cs : List Char) : Step Text :=
  match cs with
  | '"' :: rest =>
      match readChars cs 0 rest with
      | .error stop => .error stop
      | .ok (name, after) =>
          match skipSpace after with
          | ':' :: tail => .ok (name, skipSpace tail)
          | tail => .error ⟨.expectingColon, tail⟩
  | _ => .error ⟨.expectingName, cs⟩

mutual

/-- One value. The first argument bounds the depth of the recursion; of two calls within each other at
least one reads a character, so twice the length of the text is enough. -/
def readValue : Nat → List Char → Step Value
  | 0, cs => .error ⟨.expectingValue, cs⟩
  | fuel + 1, cs =>
      match cs with
      | '"' :: rest =>
          match readChars cs 0 rest with
          | .error stop => .error stop
          | .ok (s, after) => .ok (.string s, after)
      | '[' :: rest =>
          match skipSpace rest with
          | ']' :: after => .ok (.array [], after)
          | start =>
              match readItems fuel start with
              | .error stop => .error stop
              | .ok (items, after) => .ok (.array items, after)
      | '\x7b' :: rest =>
          match skipSpace rest with
          | '\x7d' :: after => .ok (.object [], after)
          | start =>
              match readMembers fuel [] start with
              | .error stop => .error stop
              | .ok (members, after) => .ok (.object members, after)
      | _ => readScalar cs

def readItems : Nat → List Char → Step (List Value)
  | 0, cs => .error ⟨.expectingValue, cs⟩
  | fuel + 1, cs =>
      match readValue fuel cs with
      | .error stop => .error stop
      | .ok (item, after) =>
          match skipSpace after with
          | ']' :: rest => .ok ([item], rest)
          | ',' :: rest =>
              match readItems fuel (skipSpace rest) with
              | .error stop => .error stop
              | .ok (items, rest) => .ok (item :: items, rest)
          | rest => .error ⟨.expectingComma, rest⟩

def readMembers : Nat → List (Text × Value) → List Char → Step (List (Text × Value))
  | 0, _, cs => .error ⟨.expectingValue, cs⟩
  | fuel + 1, read, cs =>
      match readName cs with
      | .error stop => .error stop
      | .ok (name, start) =>
          match readValue fuel start with
          | .error stop => .error stop
          | .ok (v, after) =>
              let members := Table.put name v read
              match skipSpace after with
              | '\x7d' :: rest => .ok (members, rest)
              | ',' :: rest => readMembers fuel members (skipSpace rest)
              | rest => .error ⟨.expectingComma, rest⟩

end

def readAll (cs : List Char) : Except Stop Value :=
  match cs with
  | '\ufeff' :: _ => .error ⟨.byteOrderMark, cs⟩
  | _ =>
      match readValue (2 * cs.length + 2) (skipSpace cs) with
      | .error stop => .error stop
      | .ok (v, rest) =>
          match skipSpace rest with
          | [] => .ok v
          | left => .error ⟨.extraData, left⟩

def read (text : List Char) : Except Fault Value :=
  match readAll text with
  | .ok v => .ok v
  | .error stop => .error (.badSyntax (.locate stop.problem text stop.rest))

end SpanForest.Json
