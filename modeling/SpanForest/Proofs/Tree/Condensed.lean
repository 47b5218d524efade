import SpanForest.Proofs.Tree.Outlined

/-!
Registrations that are merged before they are handed over. Where neighbours under one key that name
one parent are merged beforehand, and all registrations of a key name one parent, the same tree is
asked for, since merging is associative.
-/

namespace SpanForest.Registered

variable {I V : Type} {merge : V → V → V}

inductive Condensed (merge : V → V → V) : List (Registration I V) → List (Registration I V) → Prop where
  | nil : Condensed merge [] []
  | keep (r : Registration I V) {rs rs'} (h : Condensed merge rs rs') :
      Condensed merge (r :: rs) (r :: rs')
  | fuse {parentId : Option I} {id : I} {shared : Bool} (v w : V) {rs rs'}
      (h : Condensed merge (⟨parentId, id, shared, merge v w⟩ :: rs) rs') :
      Condensed merge (⟨parentId, id, shared, v⟩ :: ⟨parentId, id, shared, w⟩ :: rs) rs'

namespace Condensed

variable {rs rs' : List (Registration I V)} (h : Condensed merge rs rs')
include h

theorem mem_forget_iff (parentId : Option I) (k : Key I) :
    (∃ r ∈ rs, r.parentId = parentId ∧ r.key = k) ↔ ∃ r ∈ rs', r.parentId = parentId ∧ r.key = k := by
  induction h with
  | nil => rfl
  | keep r _ ih => simp only [List.mem_cons, exists_eq_or_imp, ih]
  | fuse v w _ ih =>
      rw [← ih]
      simp only [List.mem_cons, exists_eq_or_imp]
      exact ⟨fun h => h.elim .inl id, .inr⟩

theorem find?_eq {α : Type} {p : Registration I V → Bool} {f : Registration I V → α}
    (hp : ∀ parentId id shared v w, p ⟨parentId, id, shared, v⟩ = p ⟨parentId, id, shared, w⟩)
    (hf : ∀ parentId id shared v w, f ⟨parentId, id, shared, v⟩ = f ⟨parentId, id, shared, w⟩) :
    (rs.find? p).map f = (rs'.find? p).map f := by
  induction h with
  | nil => rfl
  | keep r _ ih =>
      rw [List.find?_cons, List.find?_cons]
      cases p r with
      | true => rfl
      | false => exact ih
  | @fuse parentId id shared v w _ _ _ ih =>
      rw [← ih, List.find?_cons, List.find?_cons, List.find?_cons,
        hp parentId id shared w v, hp parentId id shared (merge v w) v]
      cases p ⟨parentId, id, shared, v⟩ with
      | true => exact congrArg some (hf _ _ _ _ _)
      | false => rfl

theorem rootKey?_eq : rootKey? rs = rootKey? rs' :=
  h.find?_eq (fun _ _ _ _ _ => rfl) fun _ _ _ _ _ => rfl

variable [BEq I]

theorem eraseDups_keys [LawfulBEq I] (p : Key I → Bool) :
    ((rs.map Registration.key).filter p).eraseDups =
      ((rs'.map Registration.key).filter p).eraseDups := by
  induction h generalizing p with
  | nil => rfl
  | keep r _ ih =>
      simp only [List.map_cons, List.filter_cons]
      split
      · rw [List.eraseDups_cons, List.eraseDups_cons, List.filter_filter, List.filter_filter, ih]
      · exact ih p
  | fuse v w _ ih =>
      rw [← ih]
      simp only [List.map_cons, Registration.key, List.filter_cons]
      split
      · rw [List.eraseDups_cons, List.filter_cons_of_neg (by simp), ← List.eraseDups_cons]
      · rfl

omit h [BEq I] in
theorem foldValues_fuse (assoc : ∀ u v w, merge (merge u v) w = merge u (merge v w))
    (before : List V) (v w : V) (after : List V) :
    foldValues merge (before ++ v :: w :: after) = foldValues merge (before ++ merge v w :: after) := by
  cases before with
  | nil => rfl
  | cons u before => simp [foldValues, List.foldl_append, assoc]

omit [BEq I] in
theorem foldValues_eq (assoc : ∀ u v w, merge (merge u v) w = merge u (merge v w))
    {p : Registration I V → Bool}
    (hp : ∀ parentId id shared v w, p ⟨parentId, id, shared, v⟩ = p ⟨parentId, id, shared, w⟩)
    (before : List V) :
    foldValues merge (before ++ (rs.filter p).map Registration.value) =
      foldValues merge (before ++ (rs'.filter p).map Registration.value) := by
  induction h generalizing before with
  | nil => rfl
  | keep r _ ih =>
      simp only [List.filter_cons]
      split
      · have hrest := ih (before ++ [r.value])
        simpa only [List.map_cons, List.append_assoc, List.singleton_append] using hrest
      · exact ih before
  | @fuse parentId id shared v w _ _ _ ih =>
      rw [← ih before]
      simp only [List.filter_cons, hp parentId id shared w v, hp parentId id shared (merge v w) v]
      split
      · exact foldValues_fuse assoc before v w _
      · rfl

end Condensed

def Uniform (rs : List (Registration I V)) : Prop :=
  ∀ r ∈ rs, ∀ s ∈ rs, r.key = s.key → r.parentId = s.parentId

theorem Condensed.uniform {rs rs' : List (Registration I V)} (h : Condensed merge rs rs')
    (huniform : Uniform rs) : Uniform rs' := by
  intro r hr s hs hk
  obtain ⟨r', hr', hrp, hrk⟩ := (h.mem_forget_iff r.parentId r.key).2 ⟨r, hr, rfl, rfl⟩
  obtain ⟨s', hs', hsp, hsk⟩ := (h.mem_forget_iff s.parentId s.key).2 ⟨s, hs, rfl, rfl⟩
  rw [← hrp, ← hsp]
  exact huniform r' hr' s' hs' (hrk.trans (hk.trans hsk.symm))

section

variable [BEq I] [LawfulBEq I] {rs : List (Registration I V)}

theorem Uniform.resolvedParent_eq (h : Uniform rs) {r : Registration I V} (hr : r ∈ rs) :
    resolvedParent rs r.key = (preferred rs r).or r.plainParent := by
  -- all registrations of a key name one parent, so it does not matter which is the last
  have hsame {s : Registration I V} (hs : s ∈ rs.filter fun s => s.key == r.key) :
      preferred rs s = preferred rs r ∧ s.plainParent = r.plainParent := by
    obtain ⟨hs, hk⟩ := List.mem_filter.1 hs
    have hk : s.key = r.key := eq_of_beq hk
    have hparent := h s hs r hr hk
    obtain ⟨hid, hshared⟩ := Key.mk.inj hk
    rw [preferred, preferred, Registration.plainParent, Registration.plainParent, hparent, hid, hshared]
    exact ⟨rfl, rfl⟩
  have hmem : r ∈ rs.filter fun s => s.key == r.key :=
    List.mem_filter.2 ⟨hr, beq_self_eq_true _⟩
  have hlast : ∃ s, (rs.filter fun s => s.key == r.key).getLast? = some s :=
    Option.isSome_iff_exists.1 (List.getLast?_isSome.2 (List.ne_nil_of_mem hmem))
  obtain ⟨last, hlast⟩ := hlast
  have hplain := (hsame (List.mem_of_getLast? hlast)).2
  rw [resolvedParent, parentAfter]
  cases hp : preferred rs r with
  | none =>
      have hnil : (rs.filter fun s => s.key == r.key).filterMap (preferred rs) = [] :=
        List.filterMap_eq_nil_iff.2 fun s hs => (hsame hs).1.trans hp
      rw [hnil, hlast]
      exact hplain
  | some k =>
      have hmemk : k ∈ (rs.filter fun s => s.key == r.key).filterMap (preferred rs) :=
        List.mem_filterMap.2 ⟨r, hmem, hp⟩
      obtain ⟨q, hq⟩ := Option.isSome_iff_exists.1
        (List.getLast?_isSome.2 (List.ne_nil_of_mem hmemk))
      obtain ⟨s, hs, hsq⟩ := List.mem_filterMap.1 (List.mem_of_getLast? hq)
      rw [hq, ← hsq, (hsame hs).1, hp]
      rfl

variable {rs' : List (Registration I V)} (h : Condensed merge rs rs')
include h

theorem Condensed.has_eq (k : Key I) : has rs k = has rs' k := by
  have hmem := h.mem_forget_iff
  rw [Bool.eq_iff_iff, has_iff, has_iff, List.mem_map, List.mem_map]
  constructor
  · rintro ⟨r, hr, hk⟩
    obtain ⟨s, hs, -, hsk⟩ := (hmem r.parentId k).1 ⟨r, hr, rfl, hk⟩
    exact ⟨s, hs, hsk⟩
  · rintro ⟨r, hr, hk⟩
    obtain ⟨s, hs, -, hsk⟩ := (hmem r.parentId k).2 ⟨r, hr, rfl, hk⟩
    exact ⟨s, hs, hsk⟩

theorem Condensed.resolvedParent_eq (huniform : Uniform rs) {k : Key I} (hk : has rs k = true) :
    resolvedParent rs k = resolvedParent rs' k := by
  obtain ⟨r, hr, rfl⟩ := List.mem_map.1 (has_iff.1 hk)
  obtain ⟨s, hs, hparent, hkey⟩ := (h.mem_forget_iff r.parentId r.key).1 ⟨r, hr, rfl, rfl⟩
  have hright := (h.uniform huniform).resolvedParent_eq hs
  obtain ⟨hid, hshared⟩ := Key.mk.inj hkey
  rw [huniform.resolvedParent_eq hr, ← hkey, hright, preferred, preferred,
    Registration.plainParent, Registration.plainParent, hparent, hid, hshared]
  simp only [h.has_eq]

theorem Condensed.agree (assoc : ∀ u v w, merge (merge u v) w = merge u (merge v w))
    (huniform : Uniform rs) : Agree merge rs rs' where
  rootKey := h.rootKey?_eq
  positions := by
    have hkeys := h.eraseDups_keys fun _ => true
    rw [List.filter_true, List.filter_true] at hkeys
    rw [positions, positions, ← h.rootKey?_eq, ← hkeys]
    refine List.map_congr_left fun k hk => ?_
    have hk : has rs k = true := has_iff.2 (List.mem_eraseDups.1 (List.mem_filter.1 hk).1)
    rw [h.resolvedParent_eq huniform hk]
  rootValue := by
    have hpart : isRootPart rs' = isRootPart rs := by
      funext r
      rw [isRootPart, isRootPart, h.rootKey?_eq]
    rw [rootValues, rootValues, hpart]
    exact h.foldValues_eq assoc (fun _ _ _ _ _ => rfl) []
  nodeValue k := by
    have hpart : isRootPart rs' = isRootPart rs := by
      funext r
      rw [isRootPart, isRootPart, h.rootKey?_eq]
    rw [placedValues, placedValues, hpart]
    exact h.foldValues_eq assoc (fun _ _ _ _ _ => rfl) []

end

end SpanForest.Registered
