import Mathlib.Data.List.Nodup
import SpanForest.Table

/-!
Tables whose keys are told apart by equality. Look-ups after putting and erasing, the keys in
order, and updates after updates.
-/

namespace SpanForest.Table

variable {κ α : Type} [BEq κ] [LawfulBEq κ]

theorem find?_put (key other : κ) (value : α) (t : Table κ α) :
    find? other (put key value t) = if key == other then some value else find? other t := by
  cases h : key == other with
  | true => rw [← eq_of_beq h, find?_put_self, if_pos rfl]
  | false => rw [find?_put_of_ne h, if_neg Bool.false_ne_true]

theorem find?_erase (key other : κ) (t : Table κ α) :
    find? other (erase key t) = if key == other then none else find? other t := by
  induction t with
  | nil => simp [erase, find?]
  | cons entry rest ih =>
      simp only [erase] at ih ⊢
      by_cases hk : (entry.1 == key) = true
      · have heq : entry.1 = key := eq_of_beq hk
        rw [List.filter_cons_of_neg (by simp [hk]), ih, find?, heq]
        split <;> rfl
      · rw [List.filter_cons_of_pos (by simp [hk])]
        by_cases ho : (entry.1 == other) = true
        · have hne : (key == other) = false := by
            rw [← eq_of_beq ho, Bool.eq_false_iff]
            exact fun h => hk (by rw [eq_of_beq h]; exact beq_self_eq_true _)
          simp [find?, ho, hne]
        · simp [find?, ho, ih]

omit [LawfulBEq κ] in
theorem keys_erase (key : κ) (t : Table κ α) :
    keys (erase key t) = (keys t).filter fun k => !(k == key) := by
  simp [keys, erase, List.filter_map, Function.comp_def]

theorem mem_keys_iff {key : κ} {t : Table κ α} : key ∈ keys t ↔ (find? key t).isSome := by
  induction t with
  | nil => simp [keys, find?]
  | cons entry rest ih =>
      by_cases h : (entry.1 == key) = true
      · simp [keys_cons, find?, eq_of_beq h]
      · have hne : key ≠ entry.1 := fun he => h (by rw [he]; exact beq_self_eq_true _)
        simp [keys_cons, find?, h, hne, ih]

theorem find?_of_mem {t : Table κ α} (hnodup : (keys t).Nodup) {key : κ} {value : α}
    (h : (key, value) ∈ t) : find? key t = some value := by
  induction t with
  | nil => cases h
  | cons entry rest ih =>
      rw [keys_cons, List.nodup_cons] at hnodup
      rcases List.mem_cons.1 h with rfl | h
      · simp [find?]
      · have hne : (entry.1 == key) = false := by
          rw [Bool.eq_false_iff]
          intro he
          exact hnodup.1 (List.mem_map.2 ⟨(key, value), h, (eq_of_beq he).symm⟩)
        rw [find?, if_neg (by simp [hne]), ih hnodup.2 h]

theorem find?_eq_none {t : Table κ α} {key : κ} (h : key ∉ keys t) : find? key t = none := by
  rwa [mem_keys_iff, Option.not_isSome_iff_eq_none] at h

theorem find?_filter {t : Table κ α} (hnodup : (keys t).Nodup) (key : κ) (p : α → Bool) :
    find? key (t.filter fun entry => p entry.2) = (find? key t).filter p := by
  induction t with
  | nil => rfl
  | cons entry rest ih =>
      rw [keys_cons, List.nodup_cons] at hnodup
      have hrest := ih hnodup.2
      rw [List.filter_cons, find?]
      by_cases hk : (entry.1 == key) = true
      · rw [if_pos hk]
        cases hp : p entry.2 with
        | true => simp [find?, hk, hp, Option.filter]
        | false =>
            have hnone : find? key rest = none := find?_eq_none (eq_of_beq hk ▸ hnodup.1)
            rw [hnone] at hrest
            simp [hrest, hp, Option.filter]
      · rw [if_neg hk, ← hrest]
        cases p entry.2 <;> simp [find?, hk]

theorem mem_of_find? {t : Table κ α} {key : κ} {value : α} (h : find? key t = some value) :
    (key, value) ∈ t := by
  induction t with
  | nil => cases h
  | cons entry rest ih =>
      rw [find?] at h
      split at h
      · next hk => exact List.mem_cons.2 (.inl (Prod.ext (eq_of_beq hk).symm (Option.some.inj h).symm))
      · exact List.mem_cons_of_mem entry (ih h)

theorem ext_find? {t u : Table κ α} (hkeys : keys t = keys u) (hnodup : (keys t).Nodup)
    (h : ∀ key, find? key t = find? key u) : t = u := by
  induction t generalizing u with
  | nil => exact (List.map_eq_nil_iff.1 hkeys.symm).symm
  | cons entry rest ih =>
      cases u with
      | nil => cases hkeys
      | cons entry' rest' =>
          obtain ⟨key, value⟩ := entry
          obtain ⟨key', value'⟩ := entry'
          rw [keys_cons, List.nodup_cons] at hnodup
          rw [keys_cons, keys_cons, List.cons_eq_cons] at hkeys
          obtain ⟨rfl, hrest⟩ : key = key' ∧ keys rest = keys rest' := hkeys
          have hvalue := h key
          rw [find?, find?, if_pos BEq.rfl, if_pos BEq.rfl] at hvalue
          rw [Option.some.inj hvalue, ih hrest hnodup.2 fun other => ?_]
          by_cases hother : key = other
          · rw [← hother, find?_eq_none hnodup.1, find?_eq_none (hrest ▸ hnodup.1)]
          · have hfind := h other
            rwa [find?, find?, if_neg (by simpa using hother), if_neg (by simpa using hother)] at hfind

theorem nodup_keys_put {key : κ} {value : α} {t : Table κ α} (h : (keys t).Nodup) :
    (keys (put key value t)).Nodup := by
  rw [keys_put]
  split
  · exact h
  · next hnew =>
      refine List.nodup_append.2 ⟨h, List.nodup_singleton key, ?_⟩
      intro a ha b hb hab
      rw [List.mem_singleton] at hb
      exact hnew (List.any_eq_true.2 ⟨a, ha, beq_iff_eq.2 (hab.trans hb)⟩)

theorem mem_of_mem_put {key : κ} {value : α} {t : Table κ α} {entry : κ × α}
    (h : entry ∈ put key value t) : entry = (key, value) ∨ entry ∈ t := by
  induction t with
  | nil => exact .inl (List.mem_singleton.1 h)
  | cons first rest ih =>
      rw [put] at h
      split at h
      · next hk =>
          rcases List.mem_cons.1 h with rfl | h
          · exact .inl (congrArg (·, value) (eq_of_beq hk))
          · exact .inr (List.mem_cons_of_mem first h)
      · rcases List.mem_cons.1 h with rfl | h
        · exact .inr List.mem_cons_self
        · exact (ih h).imp_right (List.mem_cons_of_mem first)

theorem mem_of_mem_update {t entries : Table κ α} {entry : κ × α} (h : entry ∈ update t entries) :
    entry ∈ t ∨ entry ∈ entries := by
  induction entries generalizing t with
  | nil => exact .inl h
  | cons first rest ih =>
      rcases ih h with h | h
      · rcases mem_of_mem_put h with rfl | h
        · exact .inr List.mem_cons_self
        · exact .inl h
      · exact .inr (List.mem_cons_of_mem first h)

theorem nodup_keys_update {t entries : Table κ α} (h : (keys t).Nodup) :
    (keys (update t entries)).Nodup := by
  induction entries generalizing t with
  | nil => exact h
  | cons first rest ih => exact ih (nodup_keys_put h)

theorem find?_update (name : κ) (t : Table κ α) {entries : Table κ α} (h : (keys entries).Nodup) :
    find? name (update t entries) = (find? name entries).or (find? name t) := by
  induction entries generalizing t with
  | nil => rfl
  | cons first rest ih =>
      rw [keys_cons, List.nodup_cons] at h
      have hstep : find? name (update t (first :: rest)) =
          (find? name rest).or (if first.1 == name then some first.2 else find? name t) := by
        rw [← find?_put]
        exact ih (put first.1 first.2 t) h.2
      rw [hstep, find?]
      by_cases hname : (first.1 == name) = true
      · have hnone : find? name rest = none := by
          rw [← Option.not_isSome_iff_eq_none, ← mem_keys_iff, ← eq_of_beq hname]
          exact h.1
        simp [hname, hnone]
      · simp [hname]

omit [LawfulBEq κ] in
theorem put_of_find? {key : κ} {value : α} {t : Table κ α} (h : find? key t = some value) :
    put key value t = t := by
  induction t with
  | nil => cases h
  | cons entry rest ih =>
      rw [find?] at h
      rw [put]
      split at h
      · next hk => rw [if_pos hk, ← Option.some.inj h]
      · next hk => rw [if_neg hk, ih h]

omit [LawfulBEq κ] in
theorem update_of_find? {t entries : Table κ α}
    (h : ∀ entry ∈ entries, find? entry.1 t = some entry.2) : update t entries = t := by
  induction entries with
  | nil => rfl
  | cons first rest ih =>
      have hput : put first.1 first.2 t = t := put_of_find? (h first List.mem_cons_self)
      rw [update, List.foldl_cons, hput]
      exact ih fun entry hentry => h entry (List.mem_cons_of_mem first hentry)

theorem update_self {t : Table κ α} (h : (keys t).Nodup) : update t t = t :=
  update_of_find? fun _ hentry => find?_of_mem h hentry

theorem put_of_notMem {key : κ} {value : α} {t : Table κ α} (h : key ∉ keys t) :
    put key value t = t ++ [(key, value)] := by
  induction t with
  | nil => rfl
  | cons entry rest ih =>
      rw [keys_cons, List.mem_cons, not_or] at h
      have hk : (entry.1 == key) = false := beq_eq_false_iff_ne.2 (Ne.symm h.1)
      simp [put, hk, ih h.2]

theorem put_put_self (key : κ) (value other : α) (t : Table κ α) :
    put key value (put key other t) = put key value t := by
  induction t with
  | nil => simp [put]
  | cons entry rest ih =>
      by_cases hk : (entry.1 == key) = true
      · simp [put, hk]
      · simp [put, hk, ih]

theorem put_comm_of_mem {key other : κ} (hne : key ≠ other) (value value' : α) {t : Table κ α}
    (h : key ∈ keys t) : put key value (put other value' t) = put other value' (put key value t) := by
  induction t with
  | nil => cases h
  | cons entry rest ih =>
      by_cases hk : entry.1 = key
      · have ho : entry.1 ≠ other := fun ho => hne (hk.symm.trans ho)
        simp [put, hk, hne]
      · have hrest : key ∈ keys rest := (List.mem_cons.1 h).resolve_left (Ne.symm hk)
        by_cases ho : entry.1 = other
        · simp [put, ho, Ne.symm hne]
        · simp [put, hk, ho, ih hrest]

theorem put_update_of_mem {key : κ} (value : α) {t entries : Table κ α} (h : key ∈ keys t)
    (hnew : key ∉ keys entries) :
    put key value (update t entries) = update (put key value t) entries := by
  induction entries generalizing t with
  | nil => rfl
  | cons first rest ih =>
      rw [keys_cons, List.mem_cons, not_or] at hnew
      have hmem : key ∈ keys (put first.1 first.2 t) := by
        rw [mem_keys_iff, find?_put]
        split
        · rfl
        · exact mem_keys_iff.1 h
      have hput : put key value (update t (first :: rest)) =
          update (put key value (put first.1 first.2 t)) rest := ih hmem hnew.2
      rw [hput, put_comm_of_mem hnew.1 value first.2 h]
      rfl

theorem update_put (key : κ) (value : α) (t : Table κ α) {entries : Table κ α}
    (h : (keys entries).Nodup) :
    update t (put key value entries) = put key value (update t entries) := by
  induction entries generalizing t with
  | nil => rfl
  | cons first rest ih =>
      rw [keys_cons, List.nodup_cons] at h
      by_cases hk : (first.1 == key) = true
      · have hmem : first.1 ∈ keys (put first.1 first.2 t) := by
          rw [mem_keys_iff, find?_put_self]
          rfl
        have hput := put_update_of_mem value hmem h.1
        rw [put_put_self] at hput
        rw [put, if_pos hk, ← eq_of_beq hk]
        exact hput.symm
      · rw [put, if_neg hk]
        exact ih (put first.1 first.2 t) h.2

theorem update_assoc (t : Table κ α) {u v : Table κ α} (h : (keys u).Nodup) :
    update (update t u) v = update t (update u v) := by
  induction v generalizing u with
  | nil => rfl
  | cons first rest ih =>
      have hstep : update (update t u) (first :: rest) =
          update (put first.1 first.2 (update t u)) rest := rfl
      rw [hstep, ← update_put first.1 first.2 t h]
      exact ih (nodup_keys_put h)

omit [LawfulBEq κ] in
theorem nodup_keys_erase {key : κ} {t : Table κ α} (h : (keys t).Nodup) :
    (keys (erase key t)).Nodup := by
  rw [keys_erase]
  exact h.filter _

end SpanForest.Table
