import SpanForest.Command.Switch
import SpanForest.Text.DecimalDigit

/-!
What each word of a command line is, before it is known who takes it. A long option may be cut short
while only one spelling starts so, and has its value after an equals sign or in the next word. A word
that starts with a dash is plain if it is a negative number or holds a blank, unless it stands for a
switch. After two dashes all words are plain.
-/

namespace SpanForest.Command

inductive Word where
  | plain (text : String)
  | separator
  | option (text : String) (switch : Switch) (isLong : Bool) (value : Option (List Char))
  | unknown (text : String)

namespace Word

def splitEquals (cs : List Char) : List Char × Option (List Char) :=
  let before := cs.takeWhile (· ≠ '=')
  match cs.dropWhile (· ≠ '=') with
  | [] => (before, none)
  | _ :: after => (before, some after)

def separatorText : String := "--"

def isLongSpelling (spelling : String) : Bool := ['-', '-'].isPrefixOf spelling.toList

/-- A spelling that a word may stand for, and the value that the word attaches. -/
structure Candidate where
  spelling : String
  switch : Switch
  value : Option (List Char)

def Candidate.word (text : String) (c : Candidate) : Word :=
  .option text c.switch (isLongSpelling c.spelling) c.value

def longCandidates (cs : List Char) : List Candidate :=
  let (start, after) := splitEquals cs
  (Switch.spellings.filter fun entry => start.isPrefixOf entry.1.toList).map fun entry =>
    ⟨entry.1, entry.2, after⟩

/-- The short option that a word with one dash starts with, and the spellings it may be short for. -/
def shortCandidates (cs : List Char) : List Candidate :=
  Switch.spellings.filterMap fun entry =>
    if entry.1.toList = cs.take 2 then some ⟨entry.1, entry.2, some (cs.drop 2)⟩
    else if cs.isPrefixOf entry.1.toList then some ⟨entry.1, entry.2, none⟩
    else none

def candidates (cs : List Char) : List Candidate :=
  match cs with
  | '-' :: '-' :: _ => longCandidates cs
  | _ => shortCandidates cs

def isDigit (c : Char) : Bool := (Text.digitValue? c).isSome

/-- Whether a word is a minus sign with digits, or with digits, a point and digits. A line feed may
end it. -/
def isNegativeNumber (cs : List Char) : Bool :=
  match cs with
  | '-' :: rest =>
      let body := if rest.getLast? = some '\n' then rest.dropLast else rest
      match body.dropWhile isDigit with
      | [] => !body.isEmpty
      | '.' :: fraction => !fraction.isEmpty && fraction.all isDigit
      | _ => false
  | _ => false

def classify (text : String) : Except UsageError Word :=
  let cs := text.toList
  match cs with
  | '-' :: _ :: _ =>
      match Switch.ofSpelling? text with
      | some switch => .ok (.option text switch (isLongSpelling text) none)
      | none =>
          let (start, after) := splitEquals cs
          match after, Switch.ofSpelling? (String.ofList start) with
          | some value, some switch =>
              .ok (.option text switch (isLongSpelling text) (some value))
          | _, _ =>
              match candidates cs with
              | [c] => .ok (c.word text)
              | [] =>
                  if isNegativeNumber cs || cs.contains ' ' then .ok (.plain text)
                  else .ok (.unknown text)
              | many => .error (.ambiguous text (many.map Candidate.spelling))
  | _ => .ok (.plain text)

def classifyAll : List String → Except UsageError (List Word)
  | [] => .ok []
  | text :: rest =>
      if text = separatorText then .ok (.separator :: rest.map .plain)
      else
        match classify text with
        | .error e => .error e
        | .ok word =>
            match classifyAll rest with
            | .error e => .error e
            | .ok words => .ok (word :: words)

def text : Word → String
  | .plain text => text
  | .separator => separatorText
  | .option text _ _ _ => text
  | .unknown text => text

def isOption : Word → Bool
  | .option _ _ _ _ => true
  | .unknown _ => true
  | _ => false

end Word

end SpanForest.Command
