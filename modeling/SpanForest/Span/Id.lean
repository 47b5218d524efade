import SpanForest.Fault
import SpanForest.Text.Blank
import SpanForest.Text.Lowercase

/-!
Ids of traces and spans in one form: no blanks around them, lower case, and padded with zeros on the
left to 16 characters, or to 32 if they have between 17 and 31, so that short and long ways of
writing one number agree.
-/

namespace SpanForest.Id

open SpanForest.Text

def narrow : Nat := 16

def wide : Nat := 32

def width (length : Nat) : Nat :=
  if length < narrow then narrow
  else if narrow < length ∧ length < wide then wide
  else length

def pad (t : Text) : Text := List.replicate (width t.length - t.length) (.char '0') ++ t

theorem le_width (n : Nat) : n ≤ width n := by
  unfold width narrow wide
  split
  · omega
  · split <;> omega

theorem length_pad (t : Text) : (pad t).length = width t.length := by
  have := le_width t.length
  simp [pad]
  omega

/-- The one form of an id; the empty text stays empty. -/
def normal (t : Text) : Text := if t = [] then [] else pad (lower (trim t))

theorem normal_nil : normal [] = [] := rfl

def ofValue (v : Value) : Except Fault Text :=
  if v.isSet then
    match v with
    | .string s => .ok (normal s)
    | v => .error (.noField v.kind "strip")
  else .ok []

end SpanForest.Id
