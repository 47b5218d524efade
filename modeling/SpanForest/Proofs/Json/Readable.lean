import SpanForest.Proofs.Number.Rounding
import SpanForest.Proofs.Text.Joined
import SpanForest.Value.Basic

/-!
Values that text can stand for. What holds of a value and of all values in it is said once, for any
property.
-/

namespace SpanForest.Value

variable {P Q R : Value → Prop}

mutual

/-- What holds of a value and of all values in it. -/
def Every (P : Value → Prop) : Value → Prop
  | .array items => P (.array items) ∧ EveryItem P items
  | .object members => P (.object members) ∧ EveryMember P members
  | v => P v

def EveryItem (P : Value → Prop) : List Value → Prop
  | [] => True
  | x :: xs => Every P x ∧ EveryItem P xs

def EveryMember (P : Value → Prop) : List (Text × Value) → Prop
  | [] => True
  | (_, x) :: xs => Every P x ∧ EveryMember P xs

end

theorem everyItem_iff {xs : List Value} : EveryItem P xs ↔ ∀ x ∈ xs, Every P x := by
  induction xs with
  | nil => simp [EveryItem]
  | cons x xs ih => simp [EveryItem, ih]

theorem everyMember_iff {xs : List (Text × Value)} : EveryMember P xs ↔ ∀ x ∈ xs, Every P x.2 := by
  induction xs with
  | nil => simp [EveryMember]
  | cons x xs ih => simp [EveryMember, ih]

theorem every_array {items : List Value} :
    Every P (.array items) ↔ P (.array items) ∧ ∀ x ∈ items, Every P x :=
  and_congr_right' everyItem_iff

theorem every_object {members : List (Text × Value)} :
    Every P (.object members) ↔ P (.object members) ∧ ∀ x ∈ members, Every P x.2 :=
  and_congr_right' everyMember_iff

mutual

theorem every_of_and (himp : ∀ v, P v → Q v → R v) : ∀ v, Every P v → Every Q v → Every R v
  | .null, hp, hq => himp _ hp hq
  | .bool _, hp, hq => himp _ hp hq
  | .int _, hp, hq => himp _ hp hq
  | .float _, hp, hq => himp _ hp hq
  | .string _, hp, hq => himp _ hp hq
  | .array items, ⟨hp, hps⟩, ⟨hq, hqs⟩ => ⟨himp _ hp hq, everyItem_of_and himp items hps hqs⟩
  | .object members, ⟨hp, hps⟩, ⟨hq, hqs⟩ => ⟨himp _ hp hq, everyMember_of_and himp members hps hqs⟩

theorem everyItem_of_and (himp : ∀ v, P v → Q v → R v) :
    ∀ xs, EveryItem P xs → EveryItem Q xs → EveryItem R xs
  | [], _, _ => trivial
  | x :: xs, ⟨hp, hps⟩, ⟨hq, hqs⟩ => ⟨every_of_and himp x hp hq, everyItem_of_and himp xs hps hqs⟩

theorem everyMember_of_and (himp : ∀ v, P v → Q v → R v) :
    ∀ xs, EveryMember P xs → EveryMember Q xs → EveryMember R xs
  | [], _, _ => trivial
  | (_, x) :: xs, ⟨hp, hps⟩, ⟨hq, hqs⟩ =>
      ⟨every_of_and himp x hp hq, everyMember_of_and himp xs hps hqs⟩

end

structure Named (members : List (Text × Value)) : Prop where
  distinct : (Table.keys members).Nodup
  joined : ∀ x ∈ members, x.1.Joined

def Readable (v : Value) : Prop :=
  v.Every fun
    | .float x => x.Canonical
    | .string s => s.Joined
    | .object members => Named members
    | _ => True

theorem readable_array {items : List Value} :
    (Value.array items).Readable ↔ ∀ x ∈ items, x.Readable :=
  every_array.trans (and_iff_right trivial)

theorem readable_object {members : List (Text × Value)} :
    (Value.object members).Readable ↔ Named members ∧ ∀ x ∈ members, x.2.Readable :=
  every_object

/-- A value without a number that is none. -/
def NaNFree (v : Value) : Prop := v.Every (· ≠ .float .nan)

end SpanForest.Value
