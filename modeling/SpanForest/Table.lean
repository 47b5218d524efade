/-!
Tables in order of first entry. Keys are told apart by `==`, which need not be equality: a key that is
put again keeps its place and its first form and takes the new value; an erased key leaves no place
behind.
-/

namespace SpanForest

abbrev Table (κ α : Type) := List (κ × α)

namespace Table

variable {κ α : Type}

def keys (t : Table κ α) : List κ := t.map Prod.fst

theorem keys_cons (entry : κ × α) (t : Table κ α) : keys (entry :: t) = entry.1 :: keys t := rfl

variable [BEq κ]

def find? (key : κ) : Table κ α → Option α
  | [] => none
  | (k, a) :: rest => if k == key then some a else find? key rest

def put (key : κ) (value : α) : Table κ α → Table κ α
  | [] => [(key, value)]
  | (k, a) :: rest => if k == key then (k, value) :: rest else (k, a) :: put key value rest

def erase (key : κ) (t : Table κ α) : Table κ α := t.filter fun entry => !(entry.1 == key)

def update (t entries : Table κ α) : Table κ α :=
  entries.foldl (fun t entry => put entry.1 entry.2 t) t

theorem find?_put_self [ReflBEq κ] (key : κ) (value : α) (t : Table κ α) :
    find? key (put key value t) = some value := by
  induction t with
  | nil => simp [put, find?]
  | cons entry rest ih =>
      by_cases h : (entry.1 == key) = true
      · simp [put, find?, h]
      · simp [put, find?, h, ih]

theorem find?_put_of_ne [PartialEquivBEq κ] {key other : κ} (h : (key == other) = false)
    (value : α) (t : Table κ α) : find? other (put key value t) = find? other t := by
  induction t with
  | nil => simp [put, find?, h]
  | cons entry rest ih =>
      by_cases hk : (entry.1 == key) = true
      · have ho : (entry.1 == other) = false := by rw [BEq.congr_left hk, h]
        simp [put, find?, hk, ho]
      · simp [put, find?, hk, ih]

theorem keys_put (key : κ) (value : α) (t : Table κ α) :
    keys (put key value t) = if (keys t).any (· == key) then keys t else keys t ++ [key] := by
  induction t with
  | nil => rfl
  | cons entry rest ih =>
      cases hk : (entry.1 == key) with
      | true => simp [put, keys_cons, hk]
      | false =>
          simp only [put, hk, keys_cons, List.any_cons, Bool.false_or, Bool.false_eq_true, if_false, ih]
          split <;> rfl

end Table

end SpanForest
