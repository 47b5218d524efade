import SpanForest.Proofs.Table
import SpanForest.Tree.Registration

/-!
What a list of registrations asks for, said without a builder: which one is the root, which values
come together under a key, and what the parent of a key is once all registrations are known. Each
notion says what one more registration at the end changes.
-/

namespace SpanForest

variable {I V : Type}

/-- A registration that has no parent by its ids. -/
def Registration.isHeadless (r : Registration I V) : Bool := !r.shared && r.parentId.isNone

theorem Registration.isHeadless_iff (r : Registration I V) :
    r.isHeadless = true ↔ r.shared = false ∧ r.parentId = none := by
  simp [isHeadless]

/-- The values under one key, from the first one on. -/
def foldValues (merge : V → V → V) : List V → Option V
  | [] => none
  | v :: rest => some (rest.foldl merge v)

theorem foldValues_append_singleton (merge : V → V → V) (vs : List V) (v : V) :
    foldValues merge (vs ++ [v]) =
      some (match foldValues merge vs with | some old => merge old v | none => v) := by
  cases vs with
  | nil => rfl
  | cons first rest => simp [foldValues, List.foldl_append]

theorem foldValues_isSome (merge : V → V → V) (vs : List V) :
    (foldValues merge vs).isSome = !vs.isEmpty := by
  cases vs <;> rfl

theorem foldValues_induction {P : V → Prop} {merge : V → V → V} {vs : List V} (hvs : ∀ v ∈ vs, P v)
    (hmerge : ∀ v w, P v → P w → P (merge v w)) {v : V} (hv : foldValues merge vs = some v) : P v := by
  cases vs with
  | nil => cases hv
  | cons first rest =>
      rw [← Option.some.inj hv]
      obtain ⟨hfirst, hrest⟩ := List.forall_mem_cons.1 hvs
      exact List.foldlRecOn rest merge hfirst fun v hv w hw => hmerge v w hv (hrest w hw)

namespace Registered

/-- The key of the root: that of the first registration without a parent. -/
def rootKey? (rs : List (Registration I V)) : Option (Key I) :=
  (rs.find? Registration.isHeadless).map Registration.key

theorem rootKey?_append_singleton (rs : List (Registration I V)) (r : Registration I V) :
    rootKey? (rs ++ [r]) =
      (rootKey? rs).or (if r.isHeadless then some r.key else none) := by
  rw [rootKey?, rootKey?, List.find?_append]
  cases rs.find? Registration.isHeadless with
  | some first => rfl
  | none => cases h : r.isHeadless <;> simp [h]

theorem isHeadless_of_rootKey?_eq_none {rs : List (Registration I V)} (h : rootKey? rs = none)
    {r : Registration I V} (hr : r ∈ rs) : r.isHeadless = false := by
  rw [rootKey?, Option.map_eq_none_iff, List.find?_eq_none] at h
  exact Bool.eq_false_iff.2 (h r hr)

theorem rootKey?_plain {rs : List (Registration I V)} {k : Key I} (h : rootKey? rs = some k) :
    k.shared = false ∧ ∃ r ∈ rs, r.isHeadless = true ∧ r.key = k := by
  obtain ⟨r, hr, rfl⟩ := Option.map_eq_some_iff.1 h
  have hhead := List.find?_some hr
  exact ⟨(r.isHeadless_iff.1 hhead).1, r, List.mem_of_find?_eq_some hr, hhead, rfl⟩

variable [BEq I]

def valuesAt (rs : List (Registration I V)) (k : Key I) : List V :=
  (rs.filter fun r => r.key == k).map Registration.value

def isRootPart (rs : List (Registration I V)) (r : Registration I V) : Bool :=
  r.isHeadless && rootKey? rs == some r.key

def rootValues (rs : List (Registration I V)) : List V :=
  (rs.filter (isRootPart rs)).map Registration.value

def placedValues (rs : List (Registration I V)) (k : Key I) : List V :=
  (rs.filter fun r => r.key == k && !isRootPart rs r).map Registration.value

/-- The values with which that of one more registration comes together. -/
def earlier (rs : List (Registration I V)) (r : Registration I V) : List V :=
  if isRootPart (rs ++ [r]) r then rootValues rs else placedValues rs r.key

theorem isRootPart_append_singleton {rs : List (Registration I V)} (r : Registration I V)
    {s : Registration I V} (hs : s ∈ rs) : isRootPart (rs ++ [r]) s = isRootPart rs s := by
  cases h : rootKey? rs with
  | none => simp [isRootPart, isHeadless_of_rootKey?_eq_none h hs]
  | some k => simp [isRootPart, rootKey?_append_singleton, h]

theorem isRootPart_self [LawfulBEq I] (rs : List (Registration I V)) (r : Registration I V) :
    isRootPart (rs ++ [r]) r = (r.isHeadless && (rootKey? rs).all (· == r.key)) := by
  cases hr : r.isHeadless <;> cases h : rootKey? rs <;>
    simp [isRootPart, rootKey?_append_singleton, h, hr]

theorem rootValues_append_singleton (rs : List (Registration I V)) (r : Registration I V) :
    rootValues (rs ++ [r]) =
      rootValues rs ++ if isRootPart (rs ++ [r]) r then [r.value] else [] := by
  have hrest : rs.filter (isRootPart (rs ++ [r])) = rs.filter (isRootPart rs) :=
    List.filter_congr fun s hs => isRootPart_append_singleton r hs
  rw [rootValues, rootValues, List.filter_append, List.map_append, hrest]
  cases h : isRootPart (rs ++ [r]) r <;> simp [h]

theorem rootValues_eq_nil {rs : List (Registration I V)} (h : rootKey? rs = none) :
    rootValues rs = [] := by
  have hnone : rs.filter (isRootPart rs) = [] := by
    refine List.filter_eq_nil_iff.2 fun r hr => ?_
    simp [isRootPart, isHeadless_of_rootKey?_eq_none h hr]
  rw [rootValues, hnone, List.map_nil]

theorem rootValues_ne_nil [LawfulBEq I] {rs : List (Registration I V)} {k : Key I}
    (h : rootKey? rs = some k) : rootValues rs ≠ [] := by
  obtain ⟨-, r, hr, hhead, rfl⟩ := rootKey?_plain h
  refine List.ne_nil_of_mem (List.mem_map.2 ⟨r, List.mem_filter.2 ⟨hr, ?_⟩, rfl⟩)
  simp [isRootPart, hhead, h]

theorem placedValues_append_singleton (rs : List (Registration I V)) (r : Registration I V)
    (k : Key I) :
    placedValues (rs ++ [r]) k =
      placedValues rs k ++ if r.key == k && !isRootPart (rs ++ [r]) r then [r.value] else [] := by
  have hrest : rs.filter (fun s => s.key == k && !isRootPart (rs ++ [r]) s) =
      rs.filter (fun s => s.key == k && !isRootPart rs s) :=
    List.filter_congr fun s hs => by rw [isRootPart_append_singleton r hs]
  rw [placedValues, placedValues, List.filter_append, List.map_append, hrest]
  cases h : (r.key == k && !isRootPart (rs ++ [r]) r) <;> simp [h]

theorem placedValues_of_ne [LawfulBEq I] {rs : List (Registration I V)} {k : Key I}
    (h : rootKey? rs ≠ some k) :
    placedValues rs k = valuesAt rs k := by
  refine congrArg (List.map Registration.value) (List.filter_congr fun r _ => ?_)
  cases hk : r.key == k with
  | false => rfl
  | true =>
      have hpart : isRootPart rs r = false := by
        rw [isRootPart, eq_of_beq hk, beq_eq_false_iff_ne.2 h, Bool.and_false]
      rw [hpart, Bool.not_false, Bool.and_true]

def has (rs : List (Registration I V)) (k : Key I) : Bool := rs.any fun r => r.key == k

theorem has_iff [LawfulBEq I] {rs : List (Registration I V)} {k : Key I} :
    has rs k = true ↔ k ∈ rs.map Registration.key := by
  simp only [has, List.any_eq_true, beq_iff_eq, List.mem_map]

theorem earlier_eq_nil [LawfulBEq I] {rs : List (Registration I V)} {r : Registration I V}
    (hnew : has rs r.key = false) : earlier rs r = [] := by
  have hown : rs.filter (fun s => s.key == r.key && !isRootPart rs s) = [] := by
    refine List.filter_eq_nil_iff.2 fun s hs => ?_
    rw [Bool.and_eq_true_iff]
    exact fun hown => List.any_eq_false.1 hnew s hs hown.1
  rw [earlier]
  split
  · next hroot =>
      rw [isRootPart_self, Bool.and_eq_true_iff] at hroot
      cases hkey : rootKey? rs with
      | none => exact rootValues_eq_nil hkey
      | some k =>
          rw [hkey, Option.all_some] at hroot
          obtain ⟨-, s, hs, -, rfl⟩ := rootKey?_plain hkey
          exact absurd hroot.2 (List.any_eq_false.1 hnew s hs)
  · rw [placedValues, hown, List.map_nil]

def preferred (rs : List (Registration I V)) (r : Registration I V) : Option (Key I) :=
  if r.shared then none
  else (r.parentId.map fun p => ⟨p, true⟩).filter fun k => has rs k

def parentAfter (rs done : List (Registration I V)) (k : Key I) : Option (Key I) :=
  match ((done.filter fun r => r.key == k).filterMap (preferred rs)).getLast? with
  | some preferred => some preferred
  | none => ((rs.filter fun r => r.key == k).getLast?).bind Registration.plainParent

def resolvedParent (rs : List (Registration I V)) (k : Key I) : Option (Key I) :=
  parentAfter rs rs k

theorem parentAfter_nil (rs : List (Registration I V)) (k : Key I) :
    parentAfter rs [] k = ((rs.filter fun r => r.key == k).getLast?).bind Registration.plainParent := rfl

theorem parentAfter_append_singleton (rs done : List (Registration I V)) (r : Registration I V)
    (k : Key I) :
    parentAfter rs (done ++ [r]) k =
      if r.key == k then (preferred rs r).or (parentAfter rs done k) else parentAfter rs done k := by
  cases hk : r.key == k with
  | false => simp [parentAfter, List.filter_append, hk]
  | true =>
      cases hp : preferred rs r <;> simp [parentAfter, List.filter_append, hk, hp]

theorem preferred_eq_some {rs : List (Registration I V)} {r : Registration I V} {k : Key I}
    (h : preferred rs r = some k) :
    r.shared = false ∧ ∃ p, r.parentId = some p ∧ k = ⟨p, true⟩ ∧ has rs ⟨p, true⟩ = true := by
  unfold preferred at h
  cases hs : r.shared with
  | true => simp [hs] at h
  | false =>
      rw [hs, if_neg Bool.false_ne_true, Option.filter_eq_some_iff, Option.map_eq_some_iff] at h
      obtain ⟨⟨p, hp, rfl⟩, hhas⟩ := h
      exact ⟨rfl, p, hp, rfl, hhas⟩

theorem preferred_of_isHeadless (rs : List (Registration I V)) {r : Registration I V}
    (h : r.isHeadless = true) : preferred rs r = none := by
  obtain ⟨hs, hp⟩ := r.isHeadless_iff.1 h
  simp [preferred, hs, hp]

theorem parentAfter_eq_some [LawfulBEq I] {rs done : List (Registration I V)}
    (hdone : ∀ r ∈ done, r ∈ rs) {k parent : Key I} (h : parentAfter rs done k = some parent) :
    ∃ r ∈ rs, r.key = k ∧ (preferred rs r = some parent ∨ r.plainParent = some parent) := by
  unfold parentAfter at h
  split at h
  · next q hq =>
      have hmem := List.mem_of_getLast? hq
      obtain ⟨r, hr, hrq⟩ := List.mem_filterMap.1 hmem
      obtain ⟨hr, hk⟩ := List.mem_filter.1 hr
      exact ⟨r, hdone r hr, eq_of_beq hk, .inl (hrq.trans h)⟩
  · obtain ⟨r, hr, hparent⟩ := Option.bind_eq_some_iff.1 h
    obtain ⟨hr, hk⟩ := List.mem_filter.1 (List.mem_of_getLast? hr)
    exact ⟨r, hr, eq_of_beq hk, .inr hparent⟩

theorem parentAfter_ne_self [LawfulBEq I] {rs done : List (Registration I V)}
    (hdone : ∀ r ∈ done, r ∈ rs) (hself : ∀ r ∈ rs, r.parentId ≠ some r.id) (k : Key I) :
    parentAfter rs done k ≠ some k := by
  intro h
  obtain ⟨r, hr, rfl, hparent | hparent⟩ := parentAfter_eq_some hdone h
  · obtain ⟨hs, p, -, hk, -⟩ := preferred_eq_some hparent
    have hshared := congrArg Key.shared hk
    rw [Registration.key, hs] at hshared
    cases hshared
  · cases hs : r.shared with
    | true => simp [Registration.plainParent, Registration.key, hs] at hparent
    | false =>
        simp only [Registration.plainParent, hs, Bool.false_eq_true, if_false,
          Option.map_eq_some_iff, Registration.key, Key.mk.injEq] at hparent
        obtain ⟨p, hp, rfl, -⟩ := hparent
        exact hself r hr hp

omit [BEq I] in
theorem rootKey?_eq_some {rs : List (Registration I V)} {k : Key I}
    (hhead : ∃ r ∈ rs, r.isHeadless = true) (honly : ∀ r ∈ rs, r.isHeadless = true → r.key = k) :
    rootKey? rs = some k := by
  cases hroot : rootKey? rs with
  | none =>
      obtain ⟨r, hr, hr'⟩ := hhead
      rw [isHeadless_of_rootKey?_eq_none hroot hr] at hr'
      cases hr'
  | some k' =>
      obtain ⟨-, r, hr, hr', rfl⟩ := rootKey?_plain hroot
      rw [honly r hr hr']

section Distinct

variable [LawfulBEq I] {rs : List (Registration I V)} (distinct : (rs.map Registration.key).Nodup)
  {r : Registration I V} (hr : r ∈ rs)
include distinct hr

theorem filter_key_eq : (rs.filter fun s => s.key == r.key) = [r] := by
  induction rs with
  | nil => cases hr
  | cons s rs ih =>
      rw [List.map_cons, List.nodup_cons] at distinct
      rcases List.mem_cons.1 hr with rfl | hr
      · have hnone : (rs.filter fun s => s.key == r.key) = [] := by
          rw [List.filter_eq_nil_iff]
          intro s hs hkey
          exact distinct.1 (List.mem_map.2 ⟨s, hs, eq_of_beq hkey⟩)
        simp [hnone]
      · have hne : ¬ (s.key == r.key) = true := fun hkey =>
          distinct.1 (List.mem_map.2 ⟨r, hr, (eq_of_beq hkey).symm⟩)
        rw [List.filter_cons_of_neg (by exact hne), ih distinct.2 hr]

theorem valuesAt_eq : valuesAt rs r.key = [r.value] := by
  rw [valuesAt, filter_key_eq distinct hr, List.map_singleton]

theorem resolvedParent_eq : resolvedParent rs r.key = (preferred rs r).or r.plainParent := by
  rw [resolvedParent, parentAfter, filter_key_eq distinct hr]
  cases h : preferred rs r <;> simp [h]

end Distinct

end Registered

end SpanForest
