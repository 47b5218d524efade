import SpanForest.Json.Strings
import SpanForest.Json.Writer
import SpanForest.Proofs.Text.Hex
import SpanForest.Proofs.Text.Joined

/-!
Strings read back as they were written. Each code point is read back from its escape, whatever follows;
a character beyond U+FFFF is put together again from two code units, and half of a pair is kept unless
the other half follows. What is read is never such a pair.
-/

namespace SpanForest

namespace Json

open SpanForest.Text

theorem readChars_skip (opening taken rest : List Char) :
    readChars opening taken.length (taken ++ rest) = readChars opening 0 rest := by
  induction taken with
  | nil => rfl
  | cons c taken ih =>
      rw [List.length_cons, List.cons_append, readChars]
      exact ih

theorem readUnit_hexDigits (mark : List Char) {n : Nat} (hn : n < 16 ^ 4) {rest : List Char}
    (hrest : rest ≠ []) : readUnit mark (hexDigits 4 n ++ rest) = .ok n := by
  have hdrop : (hexDigits 4 n ++ rest).drop 4 = rest := List.drop_left' (length_hexDigits 4 n)
  have htake : (hexDigits 4 n ++ rest).take 4 = hexDigits 4 n := List.take_left' (length_hexDigits 4 n)
  rw [readUnit, hdrop, htake, readHex?_hexDigits 4 n hn, if_neg (by simpa using hrest)]

theorem readEscapedUnit_single (mark : List Char) {n : Nat} (hn : n < 16 ^ 4)
    (hhigh : isHighSurrogate n = false) {rest : List Char} (hrest : rest ≠ []) :
    readEscapedUnit mark (hexDigits 4 n ++ rest) = .ok (pointOfUnit n, 4) := by
  rw [readEscapedUnit, readUnit_hexDigits mark hn hrest]
  simp [hhigh]

theorem readSecondUnit_unitEscape {n : Nat} (hn : n < 16 ^ 4) {rest : List Char} (hrest : rest ≠ []) :
    readSecondUnit (unitEscape n ++ rest) = .ok (if isLowSurrogate n then some n else none) := by
  have hdrop : (hexDigits 4 n ++ rest).drop 4 = rest := List.drop_left' (length_hexDigits 4 n)
  have htake : (hexDigits 4 n ++ rest).take 4 = hexDigits 4 n := List.take_left' (length_hexDigits 4 n)
  rw [unitEscape, List.cons_append, List.cons_append, readSecondUnit, hdrop, htake,
    readHex?_hexDigits 4 n hn, if_neg (by simpa using hrest)]

theorem readEscapedUnit_pair (mark : List Char) {high low : Nat} (hhigh : isHighSurrogate high = true)
    (hlow : isLowSurrogate low = true) {rest : List Char} (hrest : rest ≠ []) :
    readEscapedUnit mark (hexDigits 4 high ++ (unitEscape low ++ rest)) =
      .ok (.char (Char.ofNat (joinSurrogates high low)), 10) := by
  have hhigh' : high < 16 ^ 4 := by
    simp [isHighSurrogate] at hhigh
    omega
  have hlow' : low < 16 ^ 4 := by
    simp [isLowSurrogate] at hlow
    omega
  have hne : unitEscape low ++ rest ≠ [] := by simp [unitEscape]
  have hdrop : (hexDigits 4 high ++ (unitEscape low ++ rest)).drop 4 = unitEscape low ++ rest :=
    List.drop_left' (length_hexDigits 4 high)
  rw [readEscapedUnit, readUnit_hexDigits mark hhigh' hne, hdrop,
    readSecondUnit_unitEscape hlow' hrest]
  simp [hhigh, hlow]

theorem readEscapedUnit_alone (mark : List Char) {high : Nat} (hn : high < 16 ^ 4) {rest : List Char}
    (hrest : rest ≠ []) (hnext : readSecondUnit rest = .ok none) :
    readEscapedUnit mark (hexDigits 4 high ++ rest) = .ok (pointOfUnit high, 4) := by
  have hdrop : (hexDigits 4 high ++ rest).drop 4 = rest := List.drop_left' (length_hexDigits 4 high)
  rw [readEscapedUnit, readUnit_hexDigits mark hn hrest, hdrop, hnext]
  simp

theorem readChars_unitEscape {opening taken rest left : List Char} {p : CodePoint} {tail : Text}
    (hunit : readEscapedUnit ('u' :: (taken ++ rest)) (taken ++ rest) = .ok (p, taken.length))
    (h : readChars opening 0 rest = .ok (tail, left)) :
    readChars opening 0 ('\\' :: 'u' :: (taken ++ rest)) = .ok (p :: tail, left) := by
  have hskip : readChars opening (taken.length + 1) ('u' :: (taken ++ rest)) = .ok (tail, left) := by
    rw [readChars, readChars_skip, h]
  rw [readChars]
  simp [hunit, hskip]

theorem readChars_shortEscape {opening rest left : List Char} {e c : Char} {tail : Text}
    (hc : shortEscape? e = some c) (h : readChars opening 0 rest = .ok (tail, left)) :
    readChars opening 0 ('\\' :: e :: rest) = .ok (.char c :: tail, left) := by
  have hu : e ≠ 'u' := by
    rintro rfl
    cases hc
  have hskip : readChars opening 1 (e :: rest) = .ok (tail, left) := by rw [readChars, h]
  rw [readChars]
  simp [hu, hc, hskip]

theorem readChars_plain {opening rest left : List Char} {c : Char} {tail : Text}
    (hquote : c ≠ '"') (hmark : c ≠ '\\') (hc : 0x1f < c.toNat)
    (h : readChars opening 0 rest = .ok (tail, left)) :
    readChars opening 0 (c :: rest) = .ok (.char c :: tail, left) := by
  unfold readChars
  rw [if_neg hquote, if_neg hmark, if_neg (Nat.not_le.2 hc), h]

theorem pointOfUnit_toNat (p : CodePoint) : pointOfUnit p.toNat = p := by
  rw [pointOfUnit]
  cases p with
  | half n =>
      have hn : CodePoint.firstHalf ≤ (CodePoint.half n).toNat ∧
          (CodePoint.half n).toNat - CodePoint.firstHalf < 0x800 := by
        simp [CodePoint.toNat]
      rw [dif_pos hn]
      simp [CodePoint.toNat]
  | char c =>
      have hvalid : c.toNat < 0xd800 ∨ 0xdfff < c.toNat ∧ c.toNat < 0x110000 := c.valid
      rw [dif_neg (by simp only [CodePoint.toNat, CodePoint.firstHalf]; omega), CodePoint.toNat,
        Char.ofNat_toNat]

theorem readChars_escapeChar {opening rest left : List Char} {tail : Text} (c : Char)
    (h : readChars opening 0 rest = .ok (tail, left)) :
    readChars opening 0 (escapeChar c ++ rest) = .ok (.char c :: tail, left) := by
  have hrest : rest ≠ [] := by
    rintro rfl
    cases h
  unfold escapeChar
  -- the seven characters that have an escape of one letter
  iterate 7
    split
    · next hc => exact readChars_shortEscape (by rw [hc]; rfl) h
  split
  · next hquote hmark _ _ _ _ _ hc =>
      exact readChars_plain hquote hmark (by omega) h
  split
  · next hc =>
      have hunit := readEscapedUnit_single ('u' :: (hexDigits 4 c.toNat ++ rest)) (by omega)
        (isHighSurrogate_toNat c) hrest
      have hpoint : pointOfUnit c.toNat = .char c := pointOfUnit_toNat (.char c)
      rw [hpoint, ← length_hexDigits 4 c.toNat] at hunit
      exact readChars_unitEscape hunit h
  · next hc =>
      -- beyond the first plane there are two escapes, and the reader joins them again
      have hvalid : c.toNat < 0xd800 ∨ 0xdfff < c.toNat ∧ c.toNat < 0x110000 := c.valid
      generalize hfirst : 0xd800 + (c.toNat - 0x10000) / 0x400 = high
      generalize hsecond : 0xdc00 + (c.toNat - 0x10000) % 0x400 = low
      have hjoined : Char.ofNat (joinSurrogates high low) = c := by
        have hsame : joinSurrogates high low = c.toNat := by
          rw [joinSurrogates]
          omega
        rw [hsame, Char.ofNat_toNat]
      have hhigh : isHighSurrogate high = true := by
        simp [isHighSurrogate]
        omega
      have hlow : isLowSurrogate low = true := by
        simp [isLowSurrogate]
        omega
      have hunit := readEscapedUnit_pair ('u' :: (hexDigits 4 high ++ unitEscape low ++ rest)) hhigh
        hlow hrest
      have hlength : (hexDigits 4 high ++ unitEscape low).length = 10 := by
        simp [unitEscape, length_hexDigits]
      rw [hjoined, ← List.append_assoc, ← hlength] at hunit
      exact readChars_unitEscape hunit h

theorem readSecondUnit_escapeChar (c : Char) {rest : List Char} (hrest : rest ≠ []) :
    readSecondUnit (escapeChar c ++ rest) = .ok none := by
  have hlow := isLowSurrogate_toNat c
  unfold escapeChar
  iterate 7
    split
    · rfl
  split
  · next hmark _ _ _ _ _ _ =>
    rw [List.singleton_append]
    unfold readSecondUnit
    split
    · next heq => exact absurd (List.cons.inj heq).1 hmark
    · rfl
  split
  · next hc =>
    rw [readSecondUnit_unitEscape (by omega) hrest]
    exact congrArg Except.ok (if_neg (Bool.eq_false_iff.1 hlow))
  · next hc =>
    have hvalid : c.toNat < 0xd800 ∨ 0xdfff < c.toNat ∧ c.toNat < 0x110000 := c.valid
    have hne : unitEscape (0xdc00 + (c.toNat - 0x10000) % 0x400) ++ rest ≠ [] := by simp [unitEscape]
    rw [List.append_assoc, readSecondUnit_unitEscape (by omega) hne]
    refine congrArg Except.ok (if_neg ?_)
    simp only [isLowSurrogate, Bool.and_eq_true, decide_eq_true_eq]
    omega

theorem readSecondUnit_text {t : Text} (h : ∀ q ∈ t.head?, isLowSurrogate q.toNat = false)
    (rest : List Char) : readSecondUnit (t.flatMap escapePoint ++ '"' :: rest) = .ok none := by
  cases t with
  | nil => rfl
  | cons q t =>
      rw [List.flatMap_cons, List.append_assoc]
      cases q with
      | char c => exact readSecondUnit_escapeChar c (by simp)
      | half n =>
          have hn : (CodePoint.half n).toNat < 16 ^ 4 := by
            simp only [CodePoint.toNat, CodePoint.firstHalf]
            omega
          rw [escapePoint, readSecondUnit_unitEscape hn (by simp), h _ rfl]
          rfl

theorem readChars_half {opening rest left : List Char} {tail : Text} (n : Fin 0x800)
    (hnext : isHighSurrogate (CodePoint.half n).toNat = true → readSecondUnit rest = .ok none)
    (h : readChars opening 0 rest = .ok (tail, left)) :
    readChars opening 0 (escapePoint (.half n) ++ rest) = .ok (.half n :: tail, left) := by
  have hrest : rest ≠ [] := by
    rintro rfl
    cases h
  have hn : (CodePoint.half n).toNat < 16 ^ 4 := by
    simp only [CodePoint.toNat, CodePoint.firstHalf]
    omega
  have hunit (mark : List Char) : readEscapedUnit mark (hexDigits 4 (CodePoint.half n).toNat ++ rest) =
      .ok (.half n, 4) := by
    have hpoint := pointOfUnit_toNat (.half n)
    cases hhigh : isHighSurrogate (CodePoint.half n).toNat with
    | true => rw [readEscapedUnit_alone mark hn hrest (hnext hhigh), hpoint]
    | false => rw [readEscapedUnit_single mark hn hhigh hrest, hpoint]
  have hread := hunit ('u' :: (hexDigits 4 (CodePoint.half n).toNat ++ rest))
  rw [← length_hexDigits 4 (CodePoint.half n).toNat] at hread
  exact readChars_unitEscape hread h

theorem readChars_writeString (opening rest : List Char) {t : Text} (h : t.Joined) :
    readChars opening 0 (t.flatMap escapePoint ++ '"' :: rest) = .ok (t, rest) := by
  induction t with
  | nil => simp [readChars]
  | cons p t ih =>
      obtain ⟨hhead, ht⟩ := List.isChain_cons.1 h
      rw [List.flatMap_cons, List.append_assoc]
      cases p with
      | char c => exact readChars_escapeChar c (ih ht)
      | half n =>
          refine readChars_half n (fun hhigh => readSecondUnit_text (fun q hq => ?_) rest) (ih ht)
          exact Bool.eq_false_iff.2 fun hlow => hhead q hq ⟨hhigh, hlow⟩

theorem isLowSurrogate_pointOfUnit (n : Nat) :
    isLowSurrogate (pointOfUnit n).toNat = isLowSurrogate n := by
  rw [pointOfUnit]
  split
  · next h => rw [CodePoint.toNat, Nat.add_sub_cancel' h.1]
  · next h =>
    rw [CodePoint.firstHalf] at h
    refine (isLowSurrogate_toNat _).trans (Bool.eq_false_iff.2 ?_).symm
    simp only [isLowSurrogate, ne_eq, Bool.and_eq_true, decide_eq_true_eq]
    omega

theorem readSecondUnit_of_readEscapedUnit {mark cs : List Char} {q : CodePoint} {length : Nat}
    (h : readEscapedUnit mark cs = .ok (q, length)) (hq : isLowSurrogate q.toNat = true) :
    readSecondUnit ('\\' :: 'u' :: cs) ≠ .ok none := by
  unfold readEscapedUnit at h
  split at h
  · cases h
  · next n hunit =>
    have hlow : isLowSurrogate n = true := by
      split at h
      · split at h
        · cases h
        · cases h
          exact absurd ((isLowSurrogate_toNat _).symm.trans hq) Bool.false_ne_true
        · cases h
          exact (isLowSurrogate_pointOfUnit n).symm.trans hq
      · cases h
        exact (isLowSurrogate_pointOfUnit n).symm.trans hq
    unfold readUnit at hunit
    split at hunit
    · cases hunit
    · next hlong =>
      split at hunit
      · next hread =>
        cases hunit
        rw [readSecondUnit, if_neg hlong, hread]
        dsimp only
        rw [if_pos hlow]
        nofun
      · cases hunit

inductive ReadsOn (opening : List Char) : List Char → Text → List Char → Prop
  | close (rest : List Char) : ReadsOn opening ('"' :: rest) [] rest
  | char {c : Char} {rest left : List Char} {skip : Nat} {tail : Text} (shown : Char)
      (read : readChars opening skip rest = .ok (tail, left)) :
      ReadsOn opening (c :: rest) (.char shown :: tail) left
  | unit {after left : List Char} {p : CodePoint} {length : Nat} {tail : Text}
      (escape : readEscapedUnit ('u' :: after) after = .ok (p, length))
      (read : readChars opening (length + 1) ('u' :: after) = .ok (tail, left)) :
      ReadsOn opening ('\\' :: 'u' :: after) (p :: tail) left

theorem readsOn_of_readChars {opening cs left : List Char} {t : Text}
    (h : readChars opening 0 cs = .ok (t, left)) : ReadsOn opening cs t left := by
  cases cs with
  | nil => cases h
  | cons c rest =>
      unfold readChars at h
      split at h
      · next hquote =>
        cases h
        exact hquote ▸ .close left
      split at h
      · next hmark =>
        split at h
        · cases h
        · next e after =>
          split at h
          · next hu =>
            split at h
            · cases h
            · next hescape =>
              split at h
              · cases h
              · next hread =>
                cases h
                subst hmark hu
                exact .unit hescape hread
          · split at h
            · cases h
            · split at h
              · cases h
              · next hread =>
                cases h
                exact .char _ hread
      split at h
      · cases h
      · split at h
        · cases h
        · next hread =>
          cases h
          exact .char _ hread

theorem apart_of_readSecondUnit {opening cs left : List Char} {t : Text} (p : CodePoint)
    (hnext : readSecondUnit cs = .ok none) (h : readChars opening 0 cs = .ok (t, left)) :
    ∀ q ∈ t.head?, Apart p q := by
  cases readsOn_of_readChars h with
  | close => exact nofun
  | char shown =>
      intro q hq
      exact Option.some.inj hq ▸ apart_char_right p shown
  | unit hescape =>
      intro q hq hpair
      obtain rfl := Option.some.inj hq
      exact readSecondUnit_of_readEscapedUnit hescape hpair.2 hnext

theorem isHighSurrogate_pointOfUnit {n : Nat} (h : isHighSurrogate (pointOfUnit n).toNat = true) :
    isHighSurrogate n = true := by
  rw [pointOfUnit] at h
  split at h
  · next hn => rwa [CodePoint.toNat, Nat.add_sub_cancel' hn.1] at h
  · exact absurd ((isHighSurrogate_toNat _).symm.trans h) Bool.false_ne_true

theorem readSecondUnit_of_isHighSurrogate {mark cs : List Char} {p : CodePoint} {length : Nat}
    (h : readEscapedUnit mark cs = .ok (p, length)) (hp : isHighSurrogate p.toNat = true) :
    length = 4 ∧ readSecondUnit (cs.drop 4) = .ok none := by
  unfold readEscapedUnit at h
  split at h
  · cases h
  split at h
  · split at h
    · cases h
    · cases h
      exact absurd ((isHighSurrogate_toNat _).symm.trans hp) Bool.false_ne_true
    · next hnext =>
      cases h
      exact ⟨rfl, hnext⟩
  · next hhigh =>
    cases h
    exact absurd (isHighSurrogate_pointOfUnit hp) hhigh

theorem readChars_drop (opening : List Char) (skip : Nat) (cs : List Char) :
    readChars opening skip cs = readChars opening 0 (cs.drop skip) := by
  induction cs generalizing skip with
  | nil => cases skip <;> rfl
  | cons c cs ih =>
      cases skip with
      | zero => rfl
      | succ skip => rw [readChars, ih, List.drop_succ_cons]

theorem joined_of_readChars {opening cs left : List Char} {skip : Nat} {t : Text}
    (h : readChars opening skip cs = .ok (t, left)) : t.Joined := by
  induction cs generalizing skip t with
  | nil => cases skip <;> cases h
  | cons c rest ih =>
      cases skip with
      | succ skip => exact ih h
      | zero =>
          cases readsOn_of_readChars h with
          | close => exact .nil
          | char shown hread => exact joined_ofChars_append [shown] (ih hread)
          | unit hescape hread =>
              refine List.isChain_cons.2 ⟨fun q hq hpair => ?_, ih hread⟩
              obtain ⟨rfl, hnext⟩ := readSecondUnit_of_isHighSurrogate hescape hpair.1
              rw [readChars_drop, List.drop_succ_cons] at hread
              exact apart_of_readSecondUnit _ hnext hread q hq hpair

end Json

end SpanForest
