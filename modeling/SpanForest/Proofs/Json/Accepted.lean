import SpanForest.Json.Reader
import SpanForest.Proofs.Json.Readable
import SpanForest.Proofs.Json.Strings
import SpanForest.Proofs.Number.Shortest
import SpanForest.Proofs.Table

/-!
Values that reading gives. Their numbers are rounded, no string holds a pair of halves, and no name
is in an object twice, so that a text can stand for them unless it is the word for no number that
was read. The induction is on the bound of the reader.
-/

namespace SpanForest

namespace Value

def Sound (v : Value) : Prop :=
  v.Every fun
    | .float x => x = .nan ∨ x.Canonical
    | .string s => s.Joined
    | .object members => Named members
    | _ => True

theorem sound_array {items : List Value} : (Value.array items).Sound ↔ ∀ x ∈ items, x.Sound :=
  every_array.trans (and_iff_right trivial)

theorem sound_object {members : List (Text × Value)} : (Value.object members).Sound ↔
    Named members ∧ ∀ x ∈ members, x.2.Sound :=
  every_object

theorem Named.put {members : List (Text × Value)} (h : Named members)
    {name : Text} (hname : name.Joined) (v : Value) : Named (Table.put name v members) where
  distinct := Table.nodup_keys_put h.distinct
  joined x hx := by
    rcases Table.mem_of_mem_put hx with rfl | hx
    · exact hname
    · exact h.joined x hx

theorem Sound.readable {v : Value} (h : v.Sound) (hnan : v.NaNFree) : v.Readable := by
  refine every_of_and (fun w hsound hw => ?_) v h hnan
  cases w with
  | float x => exact hsound.resolve_left fun hx => hw (congrArg Value.float hx)
  | string s => exact hsound
  | object members => exact hsound
  | _ => trivial

end Value

namespace Json

theorem sound_of_readUnsigned {negative : Bool} {cs rest : List Char} {v : Value}
    (h : readUnsigned negative cs = some (v, rest)) : v.Sound := by
  unfold readUnsigned at h
  split at h
  · cases h
  · dsimp only at h
    split at h
    · obtain ⟨rfl, -⟩ := Prod.mk.inj (Option.some.inj h)
      trivial
    · obtain ⟨rfl, -⟩ := Prod.mk.inj (Option.some.inj h)
      exact .inr (Binary64.canonical_ofDecimal _ _ _)

theorem sound_of_readScalar {cs rest : List Char} {v : Value}
    (h : readScalar cs = .ok (v, rest)) : v.Sound := by
  unfold readScalar at h
  split at h
  · next r hr =>
    obtain ⟨entry, hfind, heq⟩ := Option.map_eq_some_iff.1 hr
    have hconstants : ∀ entry ∈ constants, entry.2.Sound := by
      simp only [constants, List.forall_mem_cons, List.not_mem_nil, false_implies, implies_true, and_true]
      exact ⟨trivial, trivial, trivial, .inl rfl, .inr trivial, .inr trivial⟩
    rw [Except.ok.inj h] at heq
    obtain ⟨rfl, -⟩ := Prod.mk.inj heq
    exact hconstants entry (List.mem_of_find?_eq_some hfind)
  · split at h
    · next r hr =>
      rw [Except.ok.inj h] at hr
      unfold readNumber at hr
      split at hr
      · exact sound_of_readUnsigned hr
      · exact sound_of_readUnsigned hr
    · cases h

theorem joined_of_readName {cs rest : List Char} {name : Text}
    (h : readName cs = .ok (name, rest)) : name.Joined := by
  unfold readName at h
  split at h
  · split at h
    · cases h
    · next hchars =>
      split at h
      · cases h
        exact joined_of_readChars hchars
      · cases h
  · cases h

structure SoundMembers (members : List (Text × Value)) : Prop where
  names : Value.Named members
  values : ∀ x ∈ members, x.2.Sound

theorem SoundMembers.put {members : List (Text × Value)} (h : SoundMembers members) {name : Text}
    (hname : name.Joined) {v : Value} (hv : v.Sound) : SoundMembers (Table.put name v members) where
  names := h.names.put hname v
  values x hx := by
    rcases Table.mem_of_mem_put hx with rfl | hx
    · exact hv
    · exact h.values x hx

structure SoundWithin (fuel : Nat) : Prop where
  value : ∀ {cs rest v}, readValue fuel cs = .ok (v, rest) → v.Sound
  items : ∀ {cs rest xs}, readItems fuel cs = .ok (xs, rest) → ∀ x ∈ xs, x.Sound
  members : ∀ {before cs rest xs}, SoundMembers before →
    readMembers fuel before cs = .ok (xs, rest) → SoundMembers xs

section

variable {fuel : Nat} {cs rest : List Char} (h : SoundWithin fuel)
include h

theorem SoundWithin.value_next {v : Value} (hread : readValue (fuel + 1) cs = .ok (v, rest)) :
    v.Sound := by
  unfold readValue at hread
  split at hread
  · split at hread
    · cases hread
    · next hchars =>
      obtain ⟨rfl, -⟩ := Prod.mk.inj (Except.ok.inj hread)
      exact joined_of_readChars hchars
  · split at hread
    · obtain ⟨rfl, -⟩ := Prod.mk.inj (Except.ok.inj hread)
      exact Value.sound_array.2 nofun
    · split at hread
      · cases hread
      · next hitems =>
        obtain ⟨rfl, -⟩ := Prod.mk.inj (Except.ok.inj hread)
        exact Value.sound_array.2 (h.items hitems)
  · split at hread
    · obtain ⟨rfl, -⟩ := Prod.mk.inj (Except.ok.inj hread)
      exact Value.sound_object.2 ⟨⟨.nil, nofun⟩, nofun⟩
    · split at hread
      · cases hread
      · next hmembers =>
        obtain ⟨rfl, -⟩ := Prod.mk.inj (Except.ok.inj hread)
        have hnone : SoundMembers [] := ⟨⟨.nil, nofun⟩, nofun⟩
        have hsound := h.members hnone hmembers
        exact Value.sound_object.2 ⟨hsound.names, hsound.values⟩
  · exact sound_of_readScalar hread

theorem SoundWithin.items_next {xs : List Value} (hread : readItems (fuel + 1) cs = .ok (xs, rest)) :
    ∀ x ∈ xs, x.Sound := by
  unfold readItems at hread
  split at hread
  · cases hread
  · next hitem =>
    split at hread
    · obtain ⟨rfl, -⟩ := Prod.mk.inj (Except.ok.inj hread)
      exact List.forall_mem_singleton.2 (h.value hitem)
    · split at hread
      · cases hread
      · next hothers =>
        obtain ⟨rfl, -⟩ := Prod.mk.inj (Except.ok.inj hread)
        exact List.forall_mem_cons.2 ⟨h.value hitem, h.items hothers⟩
    · cases hread

theorem SoundWithin.members_next {before xs : List (Text × Value)} (hbefore : SoundMembers before)
    (hread : readMembers (fuel + 1) before cs = .ok (xs, rest)) : SoundMembers xs := by
  unfold readMembers at hread
  split at hread
  · cases hread
  · next name start hname =>
    split at hread
    · cases hread
    · next hvalue =>
      have hput := hbefore.put (joined_of_readName hname) (h.value hvalue)
      dsimp only at hread
      split at hread
      · obtain ⟨rfl, -⟩ := Prod.mk.inj (Except.ok.inj hread)
        exact hput
      · exact h.members hput hread
      · cases hread

end

theorem soundWithin (fuel : Nat) : SoundWithin fuel := by
  induction fuel with
  | zero => exact ⟨nofun, nofun, nofun⟩
  | succ fuel ih => exact ⟨ih.value_next, ih.items_next, ih.members_next⟩

theorem sound_of_read {text : List Char} {v : Value} (h : read text = .ok v) : v.Sound := by
  unfold read at h
  split at h
  · next hall =>
    obtain rfl := Except.ok.inj h
    unfold readAll at hall
    split at hall
    · cases hall
    · split at hall
      · cases hall
      · next hvalue =>
        split at hall
        · obtain rfl := Except.ok.inj hall
          exact (soundWithin _).value hvalue
        · cases hall
  · cases h

theorem readable_of_read {text : List Char} {v : Value} (h : read text = .ok v) (hnan : v.NaNFree) :
    v.Readable :=
  (sound_of_read h).readable hnan

end Json

end SpanForest
