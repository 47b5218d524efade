import SpanForest.Text.Blank
import SpanForest.Text.Lowercase

/-!
Lower case of text in lower case. No run of the table has a character that the table leads to, so a
lowered character is left alone, and neither is such a character blank. Lowering a text twice is
lowering it once.
-/

namespace SpanForest.Text

namespace CaseRun

/-- The code points that a run leads to. -/
def image (r : CaseRun) : CaseRun :=
  ⟨((r.first : Int) + r.offset).toNat, ((r.last : Int) + r.offset).toNat, r.step, 0⟩

def misses (r q : CaseRun) : Bool :=
  Nat.blt r.last q.first || Nat.blt q.last r.first ||
    (r.step % q.step == 0 || r.first == r.last) && Nat.ble q.first r.first &&
      (r.first - q.first) % q.step != 0

theorem has_iff (r : CaseRun) (n : Nat) :
    r.has n = true ↔ r.first ≤ n ∧ n ≤ r.last ∧ (n - r.first) % r.step = 0 := by
  simp [has, and_assoc]

theorem has_of_misses {r q : CaseRun} (h : r.misses q = true) {n : Nat} (hn : r.has n = true) :
    q.has n = false := by
  obtain ⟨hfirst, hlast, hstep⟩ := (has_iff r n).1 hn
  refine Bool.eq_false_iff.2 fun hq => ?_
  obtain ⟨hqfirst, hqlast, hqstep⟩ := (has_iff q n).1 hq
  simp only [misses, Bool.or_eq_true, Bool.and_eq_true, Nat.blt_eq, Nat.ble_eq, beq_iff_eq,
    bne_iff_ne] at h
  rcases h with (hbefore | hafter) | ⟨⟨hsteps, hle⟩, hbetween⟩
  · omega
  · omega
  · have hdvd : q.step ∣ n - r.first := by
      rcases hsteps with hsteps | hone
      · exact Nat.dvd_trans (Nat.dvd_of_mod_eq_zero hsteps) (Nat.dvd_of_mod_eq_zero hstep)
      · have hzero : n - r.first = 0 := by omega
        exact hzero ▸ Nat.dvd_zero _
    have hsum : n - q.first = r.first - q.first + (n - r.first) := by omega
    rw [hsum, Nat.add_mod, Nat.mod_eq_zero_of_dvd hdvd, Nat.add_zero, Nat.mod_mod] at hqstep
    exact hbetween hqstep

theorem image_has {r : CaseRun} (hfirst : 0 ≤ (r.first : Int) + r.offset) {n : Nat}
    (h : r.has n = true) : r.image.has ((n : Int) + r.offset).toNat = true := by
  obtain ⟨hlow, hhigh, hstep⟩ := (has_iff r n).1 h
  have hdiff : ((n : Int) + r.offset).toNat - ((r.first : Int) + r.offset).toNat = n - r.first := by
    omega
  refine (has_iff _ _).2 ⟨?_, ?_, ?_⟩
  · show ((r.first : Int) + r.offset).toNat ≤ _
    omega
  · show _ ≤ ((r.last : Int) + r.offset).toNat
    omega
  · show (_ - ((r.first : Int) + r.offset).toNat) % r.step = 0
    rw [hdiff, hstep]

end CaseRun

def uppercaseRuns : List CaseRun := ⟨0x130, 0x130, 1, 0⟩ :: lowercaseRuns

def avoidedRuns : List CaseRun :=
  uppercaseRuns ++ ⟨0xd800, 0xdfff, 1, 0⟩ :: blankRanges.map fun range => ⟨range.1, range.2, 1, 0⟩

theorem image_misses : ∀ r ∈ lowercaseRuns, 0 ≤ (r.first : Int) + r.offset ∧
    r.image.last < 0x110000 ∧ (avoidedRuns.all fun q => r.image.misses q) = true := by
  decide +kernel

def IsLowered (c : Char) : Prop := ∀ r ∈ uppercaseRuns, r.has c.toNat = false

theorem isBlank_eq (c : Char) : isBlank c =
    (blankRanges.map fun range => (⟨range.1, range.2, 1, 0⟩ : CaseRun)).any (·.has c.toNat) := by
  rw [isBlank, Ranges.has, List.any_map]
  congr 1
  funext range
  simp [CaseRun.has, Nat.mod_one]

theorem lowered_of_has {r : CaseRun} (hr : r ∈ lowercaseRuns) {c : Char}
    (hc : r.has c.toNat = true) :
    IsLowered (Char.ofNat ((c.toNat : Int) + r.offset).toNat) ∧
      isBlank (Char.ofNat ((c.toNat : Int) + r.offset).toNat) = false := by
  obtain ⟨hfirst, hlast, hmisses⟩ := image_misses r hr
  have himage := CaseRun.image_has hfirst hc
  have hmiss : ∀ q ∈ avoidedRuns, q.has ((c.toNat : Int) + r.offset).toNat = false :=
    fun q hq => CaseRun.has_of_misses (List.all_eq_true.1 hmisses q hq) himage
  generalize ((c.toNat : Int) + r.offset).toNat = n at himage hmiss
  have hvalid : n.isValidChar := by
    have hsurrogate := hmiss ⟨0xd800, 0xdfff, 1, 0⟩ (by simp [avoidedRuns])
    have hhigh := ((CaseRun.has_iff _ n).1 himage).2.1
    simp only [CaseRun.has, Nat.mod_one, Bool.and_eq_false_iff, decide_eq_false_iff_not] at hsurrogate
    rw [Nat.isValidChar]
    simp at hsurrogate
    omega
  have hcode : (Char.ofNat n).toNat = n := by
    rw [Char.ofNat, dif_pos hvalid]
    rfl
  constructor
  · intro q hq
    rw [hcode]
    exact hmiss q (List.mem_append_left _ hq)
  · rw [isBlank_eq, hcode, List.any_eq_false]
    intro q hq
    rw [hmiss q (List.mem_append_right _ (List.mem_cons_of_mem _ hq))]
    exact Bool.false_ne_true

theorem lowered_sigma : ∀ c ∈ ['\u03c2', '\u03c3'], IsLowered c ∧ isBlank c = false := by
  unfold IsLowered
  exact List.forall_mem_cons.2 ⟨by decide +kernel, List.forall_mem_singleton.2 (by decide +kernel)⟩

theorem lowered_dotted : ∀ c ∈ ['i', '\u0307'], IsLowered c ∧ isBlank c = false := by
  unfold IsLowered
  exact List.forall_mem_cons.2 ⟨by decide +kernel, List.forall_mem_singleton.2 (by decide +kernel)⟩

theorem lowered_of_mem_lowerOf {c d : Char} (h : d ∈ lowerOf c) :
    IsLowered d ∧ (isBlank c = false → isBlank d = false) := by
  rw [lowerOf] at h
  split at h
  · exact (lowered_dotted d h).imp_right fun hd _ => hd
  · next hdotted =>
    obtain rfl := List.mem_singleton.1 h
    rw [lowerChar]
    split
    · next r hr =>
      have hhas := (List.find?_eq_some_iff_append.1 hr).1
      exact (lowered_of_has (List.mem_of_find?_eq_some hr) hhas).imp_right fun hd _ => hd
    · next hnone =>
      refine ⟨List.forall_mem_cons.2 ⟨?_, ?_⟩, id⟩
      · refine Bool.eq_false_iff.2 fun hhas => hdotted (Char.toNat_inj.1 ?_)
        obtain ⟨hlow, hhigh, -⟩ := (CaseRun.has_iff _ _).1 hhas
        exact Nat.le_antisymm hhigh hlow
      · exact fun r hr => Bool.eq_false_iff.2 (List.find?_eq_none.1 hnone r hr)

theorem ne_sigma_of_isLowered {c : Char} (h : IsLowered c) : c ≠ '\u03a3' := by
  rintro rfl
  have hany : uppercaseRuns.any (·.has 0x3a3) = true := by decide +kernel
  obtain ⟨r, hr, hhas⟩ := List.any_eq_true.1 hany
  exact Bool.false_ne_true ((h r hr).symm.trans hhas)

theorem lowerOf_of_isLowered {c : Char} (h : IsLowered c) : lowerOf c = [c] := by
  have hdotted : c ≠ '\u0130' := by
    rintro rfl
    exact absurd (h ⟨0x130, 0x130, 1, 0⟩ List.mem_cons_self) (by decide)
  have hnone : lowercaseRuns.find? (·.has c.toNat) = none :=
    List.find?_eq_none.2 fun r hr => Bool.eq_false_iff.1 (h r (List.mem_cons_of_mem _ hr))
  rw [lowerOf, if_neg hdotted, lowerChar, hnone]

def IsLoweredPoint : CodePoint → Prop
  | .char c => IsLowered c
  | .half _ => True

theorem lowerPoint_of_isLowered {p : CodePoint} (h : IsLoweredPoint p) : lowerPoint p = [p] := by
  cases p with
  | char c => rw [lowerPoint, lowerOf_of_isLowered h, ofChars, List.map_singleton]
  | half n => rfl

theorem ne_sigma_of_isLoweredPoint {p : CodePoint} (h : IsLoweredPoint p) : p ≠ .char '\u03a3' := by
  rintro rfl
  exact ne_sigma_of_isLowered h rfl

theorem lowerPoint_ne_nil (p : CodePoint) : lowerPoint p ≠ [] := by
  cases p with
  | half n => exact List.cons_ne_nil _ _
  | char c =>
      rw [lowerPoint, lowerOf]
      split
      · exact List.cons_ne_nil _ _
      · exact List.cons_ne_nil _ _

theorem lowered_of_mem_lowerPoint {p q : CodePoint} (h : q ∈ lowerPoint p) :
    IsLoweredPoint q ∧ (p.meets isBlank = false → q.meets isBlank = false) := by
  cases p with
  | half n =>
      obtain rfl := List.mem_singleton.1 h
      exact ⟨trivial, id⟩
  | char c =>
      obtain ⟨d, hd, rfl⟩ := List.mem_map.1 h
      exact lowered_of_mem_lowerOf hd

theorem lowerFrom_of_isLowered (before : Text) {t : Text} (h : ∀ p ∈ t, IsLoweredPoint p) :
    lowerFrom before t = t := by
  induction t generalizing before with
  | nil => rfl
  | cons p t ih =>
      have hp := h p List.mem_cons_self
      rw [lowerFrom, if_neg (ne_sigma_of_isLoweredPoint hp), lowerPoint_of_isLowered hp,
        ih (p :: before) fun q hq => h q (List.mem_cons_of_mem p hq)]
      rfl

theorem lowerFrom_cons (before : Text) (p : CodePoint) (t : Text) :
    ∃ here, lowerFrom before (p :: t) = here ++ lowerFrom (p :: before) t ∧ here ≠ [] ∧
      ∀ q ∈ here, IsLoweredPoint q ∧ (p.meets isBlank = false → q.meets isBlank = false) := by
  refine ⟨_, rfl, ?_, ?_⟩
  · split
    · exact List.cons_ne_nil _ _
    · exact lowerPoint_ne_nil p
  · intro q hq
    split at hq
    · obtain rfl := List.mem_singleton.1 hq
      refine (lowered_sigma _ ?_).imp_right fun hd _ => hd
      split
      · simp
      · simp
    · exact lowered_of_mem_lowerPoint hq

theorem isLowered_of_mem_lowerFrom {before t : Text} {q : CodePoint} (h : q ∈ lowerFrom before t) :
    IsLoweredPoint q := by
  induction t generalizing before with
  | nil => cases h
  | cons p t ih =>
      obtain ⟨here, heq, -, hhere⟩ := lowerFrom_cons before p t
      rw [heq] at h
      rcases List.mem_append.1 h with hq | hq
      · exact (hhere q hq).1
      · exact ih hq

theorem lowerFrom_of_ne_sigma (before : Text) {t : Text} (h : ∀ p ∈ t, p ≠ .char '\u03a3') :
    lowerFrom before t = t.flatMap lowerPoint := by
  induction t generalizing before with
  | nil => rfl
  | cons p t ih =>
      obtain ⟨hp, ht⟩ := List.forall_mem_cons.1 h
      rw [lowerFrom, if_neg hp, ih (p :: before) ht, List.flatMap_cons]

theorem lower_lower (t : Text) : lower (lower t) = lower t :=
  lowerFrom_of_isLowered [] fun _ => isLowered_of_mem_lowerFrom

theorem lowerFrom_ne_nil (before : Text) {t : Text} (h : t ≠ []) : lowerFrom before t ≠ [] := by
  obtain ⟨p, t, rfl⟩ := List.exists_cons_of_ne_nil h
  obtain ⟨here, heq, hne, -⟩ := lowerFrom_cons before p t
  rw [heq]
  exact List.append_ne_nil_of_left_ne_nil hne _

theorem lower_ne_nil {t : Text} (h : t ≠ []) : lower t ≠ [] := lowerFrom_ne_nil [] h

end SpanForest.Text
