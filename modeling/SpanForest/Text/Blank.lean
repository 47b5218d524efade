import SpanForest.Text.Basic
import SpanForest.Text.Ranges

/-!
Blank characters: the Unicode White_Space property together with the four information separators
U+001C to U+001F. `trim` removes them from both ends; the part between is left as it is.
-/

namespace SpanForest.Text

def blankRanges : Ranges := [
  (0x9, 0xd), (0x1c, 0x20), (0x85, 0x85), (0xa0, 0xa0), (0x1680, 0x1680),
  (0x2000, 0x200a), (0x2028, 0x2029), (0x202f, 0x202f), (0x205f, 0x205f), (0x3000, 0x3000)]

def isBlank (c : Char) : Bool := blankRanges.has c

def trimBy {α : Type} (blank : α → Bool) (cs : List α) : List α :=
  ((cs.dropWhile blank).reverse.dropWhile blank).reverse

def trimList (cs : List Char) : List Char := trimBy isBlank cs

def trim (t : Text) : Text := trimBy (·.meets isBlank) t

end SpanForest.Text
