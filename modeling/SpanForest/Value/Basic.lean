import SpanForest.Number.Binary64
import SpanForest.Table
import SpanForest.Text.Basic

/-!
Values of fields whose type is not fixed. Objects keep the order of their members. Two notions of
equality: `=` tells 1, 1.0 and true apart, `same` compares numbers by value and objects without
regard to order. On strings, and on null, the two agree.
-/

namespace SpanForest

inductive Value where
  | null
  | bool (b : Bool)
  | int (n : Int)
  | float (x : Binary64)
  | string (s : Text)
  | array (items : List Value)
  | object (members : List (Text × Value))

inductive Kind where
  | null | bool | int | float | string | array | object
  deriving DecidableEq

def Kind.label : Kind → String
  | .null => "NoneType"
  | .bool => "bool"
  | .int => "int"
  | .float => "float"
  | .string => "str"
  | .array => "list"
  | .object => "dict"

namespace Value

instance : Inhabited Value := ⟨.null⟩

def kind : Value → Kind
  | .null => .null
  | .bool _ => .bool
  | .int _ => .int
  | .float _ => .float
  | .string _ => .string
  | .array _ => .array
  | .object _ => .object

def isNull : Value → Bool
  | .null => true
  | _ => false

theorem isNull_iff (v : Value) : v.isNull = true ↔ v = .null := by
  cases v <;> simp [isNull]

/-- Whether a value counts as set: not null, false, zero or empty. -/
def isSet : Value → Bool
  | .null => false
  | .bool b => b
  | .int n => n != 0
  | .float x => !x.isZero
  | .string s => !s.isEmpty
  | .array items => !items.isEmpty
  | .object members => !members.isEmpty

def orElse (v w : Value) : Value := if v.isSet then v else w

theorem orElse_of_isSet {v w : Value} (h : v.isSet = true) : v.orElse w = v := by
  simp [orElse, h]

theorem orElse_of_not_isSet {v w : Value} (h : v.isSet = false) : v.orElse w = w := by
  simp [orElse, h]

theorem orElse_assoc (u v w : Value) : (u.orElse v).orElse w = u.orElse (v.orElse w) := by
  by_cases h : u.isSet = true <;> simp [orElse, h]

/-- The number a value stands for; the truth values stand for one and zero. -/
def quantity? : Value → Option Quantity
  | .bool b => some (.ofInt (if b then 1 else 0))
  | .int n => some (.ofInt n)
  | .float x => some x.quantity
  | _ => none

def isString : Value → Bool
  | .string _ => true
  | _ => false

def isInt : Value → Bool
  | .int _ => true
  | _ => false

def isTrue : Value → Bool
  | .bool b => b
  | _ => false

def cannotKey : Value → Bool
  | .array _ => true
  | .object _ => true
  | _ => false

mutual

/-- Equality by value: numbers of different kinds may be the same. -/
def same : Value → Value → Bool
  | .null, .null => true
  | .string s, .string t => s == t
  | .array xs, .array ys => sameItems xs ys
  | .object xs, .object ys => xs.length == ys.length && sameMembers xs ys
  | v, w =>
      match v.quantity?, w.quantity? with
      | some a, some b => a.same b
      | _, _ => false

def sameItems : List Value → List Value → Bool
  | [], [] => true
  | x :: xs, y :: ys => same x y && sameItems xs ys
  | _, _ => false

def sameMembers : List (Text × Value) → List (Text × Value) → Bool
  | [], _ => true
  | (name, x) :: xs, ys =>
      (match Table.find? name ys with
        | some y => same x y
        | none => false) && sameMembers xs ys

end

theorem same_string (s t : Text) : same (.string s) (.string t) = (s == t) := by
  simp [same]

theorem same_null_iff (v : Value) : same .null v = true ↔ v = .null := by
  cases v <;> simp [same, quantity?]

theorem same_int (m n : Int) : same (.int m) (.int n) = decide (m = n) := by
  simp [same, quantity?, Quantity.same_ofInt]

mutual

def equal : Value → Value → Bool
  | .null, .null => true
  | .bool a, .bool b => a == b
  | .int m, .int n => m == n
  | .float x, .float y => x == y
  | .string s, .string t => s == t
  | .array xs, .array ys => equalItems xs ys
  | .object xs, .object ys => equalMembers xs ys
  | _, _ => false

def equalItems : List Value → List Value → Bool
  | [], [] => true
  | x :: xs, y :: ys => equal x y && equalItems xs ys
  | _, _ => false

def equalMembers : List (Text × Value) → List (Text × Value) → Bool
  | [], [] => true
  | (a, x) :: xs, (b, y) :: ys => a == b && equal x y && equalMembers xs ys
  | _, _ => false

end

mutual

theorem equal_iff : ∀ v w : Value, equal v w = true ↔ v = w
  | .null, w => by cases w <;> simp [equal]
  | .bool _, w => by cases w <;> simp [equal]
  | .int _, w => by cases w <;> simp [equal]
  | .float _, w => by cases w <;> simp [equal]
  | .string _, w => by cases w <;> simp [equal]
  | .array xs, w => by
      cases w with
      | array ys => simpa [equal] using equalItems_iff xs ys
      | _ => simp [equal]
  | .object xs, w => by
      cases w with
      | object ys => simpa [equal] using equalMembers_iff xs ys
      | _ => simp [equal]

theorem equalItems_iff : ∀ xs ys : List Value, equalItems xs ys = true ↔ xs = ys
  | [], ys => by cases ys <;> simp [equalItems]
  | x :: xs, ys => by
      cases ys with
      | nil => simp [equalItems]
      | cons y ys => simp [equalItems, equal_iff x y, equalItems_iff xs ys]

theorem equalMembers_iff : ∀ xs ys : List (Text × Value), equalMembers xs ys = true ↔ xs = ys
  | [], ys => by cases ys <;> simp [equalMembers]
  | (a, x) :: xs, ys => by
      cases ys with
      | nil => simp [equalMembers]
      | cons p ys =>
          obtain ⟨b, y⟩ := p
          simp [equalMembers, equal_iff x y, equalMembers_iff xs ys]

end

instance : DecidableEq Value := fun v w => decidable_of_iff _ (equal_iff v w)

end Value

end SpanForest
