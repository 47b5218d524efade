import Mathlib.Data.List.Nodup
import SpanForest.Proofs.Tree.Calls
import SpanForest.Tree.Outline

/-!
Trees of ids that may have two sides. Each id of such a tree has a plain side and perhaps a shared
one; the shared side hangs from the plain one, and what is below the id hangs from the shared side
if there is one. Here is where each side hangs, and by which call it is registered. No id stands
twice in a tree, unless a statement says so.
-/

namespace SpanForest

/-- What is registered under one id: a value on the plain side, called for with a flag that does not
ask for the shared one, and perhaps a value on the shared side, which may name any parent but its own
id or none. -/
structure Sides (I V : Type) where
  id : I
  value : V
  flag : Option Bool := none
  shared : Option (Option I × V) := none
  flag_ne : flag ≠ some true := by decide
  parent_ne : ∀ s ∈ shared, s.1 ≠ some id

/-- A registration, the flag with which it is called for, and the key from which it should hang. -/
structure Placement (I V : Type) where
  above : Option (Key I)
  registration : Registration I V
  flag : Option Bool

variable {I V : Type}

namespace Placement

def key (p : Placement I V) : Key I := p.registration.key

def call (p : Placement I V) : Call I V :=
  ⟨p.registration.parentId, some p.registration.id, p.flag, some p.registration.value⟩

end Placement

namespace Sides

def plainKey (s : Sides I V) : Key I := ⟨s.id, false⟩

def innerKey (s : Sides I V) : Key I := ⟨s.id, s.shared.isSome⟩

def plainSide (above : Option (Key I)) (s : Sides I V) : Placement I V :=
  ⟨above, ⟨above.map Key.id, s.id, false, s.value⟩, s.flag⟩

def sharedSide (s : Sides I V) (side : Option I × V) : Placement I V :=
  ⟨some s.plainKey, ⟨side.1, s.id, true, side.2⟩, some true⟩

def placements (above : Option (Key I)) (s : Sides I V) : List (Placement I V) :=
  s.plainSide above :: s.shared.toList.map s.sharedSide

theorem mem_placements {above : Option (Key I)} {s : Sides I V} {p : Placement I V} :
    p ∈ s.placements above ↔
      p = s.plainSide above ∨ ∃ side, s.shared = some side ∧ p = s.sharedSide side := by
  simp only [placements, List.mem_cons, List.mem_map, Option.mem_toList, eq_comm]

theorem id_placement {above : Option (Key I)} {s : Sides I V} {p : Placement I V}
    (hp : p ∈ s.placements above) : p.key.id = s.id := by
  obtain rfl | ⟨side, -, rfl⟩ := mem_placements.1 hp
  · rfl
  · rfl

theorem nodup_keys_placements (above : Option (Key I)) (s : Sides I V) :
    ((s.placements above).map Placement.key).Nodup := by
  cases hs : s.shared <;>
    simp [placements, hs, Placement.key, Registration.key, plainSide, sharedSide]

end Sides

namespace Tree

variable {α : Type}

def value : Tree α → α
  | node value _ => value

mutual

/-- The values of a tree that hangs from a given key, each with the key from which it hangs. -/
def places (above : Option (Key I)) : Tree (Sides I V) → List (Option (Key I) × Sides I V)
  | node s children => (above, s) :: placesBelow s.innerKey children

def placesBelow (above : Key I) : List (Tree (Sides I V)) → List (Option (Key I) × Sides I V)
  | [] => []
  | t :: rest => places (some above) t ++ placesBelow above rest

end

def ids (t : Tree (Sides I V)) : List I := (t.places none).map fun place => place.2.id

def placements (t : Tree (Sides I V)) : List (Placement I V) :=
  (t.places none).flatMap fun place => place.2.placements place.1

/-- The calls that register a tree, the root's without a parent. -/
def calls (t : Tree (Sides I V)) : List (Call I V) := t.placements.map Placement.call

mutual

theorem places_induction {P : Option (Key I) × Sides I V → Prop} (above : Option (Key I)) :
    ∀ t : Tree (Sides I V), P (above, t.value) →
      (∀ place s, P place →
        [place, (some place.2.innerKey, s)].Sublist (t.places above) → P (some place.2.innerKey, s)) →
      ∀ place ∈ t.places above, P place
  | node s children => fun root step place hplace => by
      rcases List.mem_cons.1 hplace with rfl | hplace
      · exact root
      · exact placesBelow_induction (above, s) root children step place hplace

theorem placesBelow_induction {P : Option (Key I) × Sides I V → Prop}
    (top : Option (Key I) × Sides I V) (htop : P top) : ∀ ts : List (Tree (Sides I V)),
      (∀ place s, P place →
        [place, (some place.2.innerKey, s)].Sublist (top :: placesBelow top.2.innerKey ts) →
          P (some place.2.innerKey, s)) →
      ∀ place ∈ placesBelow top.2.innerKey ts, P place
  | [] => fun _ _ hplace => absurd hplace List.not_mem_nil
  | t :: rest => fun step place hplace => by
      rcases List.mem_append.1 hplace with hplace | hplace
      · have hfirst : [top, (some top.2.innerKey, t.value)].Sublist
            (top :: placesBelow top.2.innerKey (t :: rest)) := by
          refine List.Sublist.cons_cons top (List.singleton_sublist.2 ?_)
          cases t with
          | node s children => exact List.mem_append_left _ List.mem_cons_self
        exact places_induction (some top.2.innerKey) t (step top t.value htop hfirst)
          (fun place s h hsub =>
            step place s h ((hsub.trans (List.sublist_append_left _ _)).cons top)) place hplace
      · exact placesBelow_induction top htop rest
          (fun place s h hsub =>
            step place s h (hsub.trans ((List.sublist_append_right _ _).cons_cons top))) place hplace

end

variable {t : Tree (Sides I V)}

theorem root_mem_places (above : Option (Key I)) (t : Tree (Sides I V)) :
    (above, t.value) ∈ t.places above := by
  cases t with
  | node s children => exact List.mem_cons_self

theorem eq_root_or_below {place : Option (Key I) × Sides I V} (h : place ∈ t.places none) :
    place = (none, t.value) ∨
      ∃ parent, place.1 = some parent.2.innerKey ∧ [parent, place].Sublist (t.places none) :=
  places_induction (P := fun place => place = (none, t.value) ∨
      ∃ parent, place.1 = some parent.2.innerKey ∧ [parent, place].Sublist (t.places none))
    none t (.inl rfl) (fun parent _ _ hsub => .inr ⟨parent, rfl, hsub⟩) place h

theorem mem_placements {p : Placement I V} : p ∈ t.placements ↔ ∃ above s, (above, s) ∈ t.places none ∧
    (p = s.plainSide above ∨ ∃ side, s.shared = some side ∧ p = s.sharedSide side) := by
  simp only [placements, List.mem_flatMap, Prod.exists, Sides.mem_placements]

theorem plainSide_mem_placements {above : Option (Key I)} {s : Sides I V}
    (h : (above, s) ∈ t.places none) : s.plainSide above ∈ t.placements :=
  mem_placements.2 ⟨above, s, h, .inl rfl⟩

theorem sharedSide_mem_placements {above : Option (Key I)} {s : Sides I V}
    (h : (above, s) ∈ t.places none) {side : Option I × V} (hside : s.shared = some side) :
    s.sharedSide side ∈ t.placements :=
  mem_placements.2 ⟨above, s, h, .inr ⟨side, hside, rfl⟩⟩

theorem above_eq_none_iff {p : Placement I V} (hp : p ∈ t.placements) :
    p.above = none ↔ p = t.value.plainSide none := by
  constructor
  · intro hnone
    obtain ⟨above, s, hs, rfl | ⟨side, -, rfl⟩⟩ := mem_placements.1 hp
    · obtain hroot | ⟨parent, habove, -⟩ := eq_root_or_below hs
      · rw [(Prod.mk.inj hroot).1, (Prod.mk.inj hroot).2]
      · exact absurd (habove.symm.trans hnone) (Option.some_ne_none _)
    · cases hnone
  · rintro rfl
    rfl

theorem isHeadless_placement {p : Placement I V} (hp : p ∈ t.placements) :
    p.registration.isHeadless = p.above.isNone := by
  obtain ⟨above, s, -, rfl | ⟨side, -, rfl⟩⟩ := mem_placements.1 hp
  · cases above <;> rfl
  · rfl

section

variable (distinct : t.ids.Nodup)
include distinct

theorem eq_of_id_eq {p q : Option (Key I) × Sides I V} (hp : p ∈ t.places none)
    (hq : q ∈ t.places none) (h : p.2.id = q.2.id) : p = q :=
  List.inj_on_of_nodup_map distinct hp hq h

theorem id_ne_of_below {p q : Option (Key I) × Sides I V} (h : [p, q].Sublist (t.places none)) :
    p.2.id ≠ q.2.id := by
  have hpair : ([p, q].map fun place => place.2.id).Nodup := distinct.sublist (h.map _)
  simpa using hpair

theorem nodup_keys_placements : (t.placements.map Placement.key).Nodup := by
  rw [placements, List.map_flatMap, List.nodup_flatMap]
  constructor
  · exact fun place _ => place.2.nodup_keys_placements place.1
  · have hpairs : (t.places none).Pairwise fun p q => p.2.id ≠ q.2.id := List.pairwise_map.1 distinct
    refine hpairs.imp fun hne => ?_
    intro k hk hl
    obtain ⟨p, hp, rfl⟩ := List.mem_map.1 hk
    obtain ⟨q, hq, hqp⟩ := List.mem_map.1 hl
    have hid : q.key.id = p.key.id := congrArg Key.id hqp
    rw [Sides.id_placement hp, Sides.id_placement hq] at hid
    exact hne hid.symm

theorem above_eq_none_of_key {p : Placement I V} (hp : p ∈ t.placements)
    (hkey : p.key = t.value.plainKey) : p.above = none := by
  refine (above_eq_none_iff hp).2 ?_
  exact List.inj_on_of_nodup_map (nodup_keys_placements distinct) hp
    (plainSide_mem_placements (root_mem_places none t)) hkey

theorem accepted?_placement [BEq I] [LawfulBEq I] {p : Placement I V} (hp : p ∈ t.placements) :
    p.call.accepted? = some p.registration := by
  have accepted (hself : p.registration.parentId ≠ some p.registration.id)
      (hflag : (p.flag == some true) = p.registration.shared) :
      p.call.accepted? = some p.registration := by
    have hany : ¬ p.registration.parentId.any (· == p.registration.id) = true := by
      rw [Option.any_eq_true]
      rintro ⟨i, hi, hid⟩
      exact hself (hi.trans (congrArg some (eq_of_beq hid)))
    rw [Call.accepted?, Placement.call]
    dsimp only
    rw [if_neg hany, hflag]
  obtain ⟨above, s, hs, rfl | ⟨side, hside, rfl⟩⟩ := mem_placements.1 hp
  · refine accepted ?_ (beq_eq_false_iff_ne.2 s.flag_ne)
    obtain hroot | ⟨parent, hparent, hsub⟩ := eq_root_or_below hs
    · rw [(Prod.mk.inj hroot).1]
      exact (Option.some_ne_none s.id).symm
    · have hne := id_ne_of_below distinct hsub
      dsimp only at hparent hne
      subst hparent
      exact fun h => hne (Option.some.inj h)
  · exact accepted (s.parent_ne side hside) rfl

theorem accepted_calls [BEq I] [LawfulBEq I] :
    Call.accepted t.calls = t.placements.map Placement.registration := by
  rw [Call.accepted, calls, List.filterMap_map, ← List.filterMap_eq_map]
  exact List.filterMap_congr fun p hp => accepted?_placement distinct hp

end

end Tree

end SpanForest
