import SpanForest.Json.Reader
import SpanForest.Json.Writer
import SpanForest.Proofs.Json.Floats
import SpanForest.Proofs.Json.Readable
import SpanForest.Proofs.Json.Strings
import SpanForest.Proofs.Table

/-!
JSON text read back as it was written. A value is read back whatever follows it, as long as that
does not go on with a number; the induction is on the value, and the bound of the reader on the
length of what is written.
-/

namespace SpanForest

namespace Json

def startChars : List Char :=
  ['n', 't', 'f', 'I', 'N', '"', '[', '\x7b', '-', '0', '1', '2', '3', '4', '5', '6', '7', '8', '9']

theorem startChars_spec : ∀ c ∈ startChars, isSpace c = false ∧ c ≠ ']' ∧ c ≠ '\ufeff' := by
  simp [startChars, isSpace]

theorem skipSpace_of_start {c : Char} (h : c ∈ startChars) (cs : List Char) :
    skipSpace (c :: cs) = c :: cs := by
  rw [skipSpace, List.dropWhile_cons, (startChars_spec c h).1]
  rfl

theorem eq_of_isDigit {c : Char} (h : isDigit c = true) :
    ∃ n, 48 ≤ n ∧ n < 58 ∧ c = Char.ofNat n := by
  simp only [isDigit, Bool.and_eq_true, decide_eq_true_eq] at h
  have hlow : 48 ≤ c.toNat := h.1
  have hhigh : c.toNat ≤ 57 := h.2
  exact ⟨c.toNat, hlow, by omega, (Char.ofNat_toNat c).symm⟩

theorem mem_startChars_of_isDigit {c : Char} (h : isDigit c = true) : c ∈ startChars := by
  have hall : ∀ n < 58, 48 ≤ n → Char.ofNat n ∈ startChars := by decide
  obtain ⟨n, hlow, hhigh, rfl⟩ := eq_of_isDigit h
  exact hall n hhigh hlow

theorem readConstant_of_isDigit {c : Char} (hc : isDigit c = true) (cs : List Char) :
    readConstant (c :: cs) = none ∧ readConstant ('-' :: c :: cs) = none := by
  have hne (d : Char) (hd : isDigit d = false) : (d == c) = false := by
    rw [beq_eq_false_iff_ne]
    rintro rfl
    exact Bool.false_ne_true (hd.symm.trans hc)
  have hn := hne 'n' rfl
  have ht := hne 't' rfl
  have hf := hne 'f' rfl
  have hN := hne 'N' rfl
  have hI := hne 'I' rfl
  have hminus := hne '-' rfl
  simp [readConstant, constants, List.isPrefixOf, hn, ht, hf, hN, hI, hminus]

theorem readScalar_digits {c : Char} {cs : List Char} (hc : isDigit c = true) {v : Value}
    {rest : List Char} (h : readUnsigned false (c :: cs) = some (v, rest)) :
    readScalar (c :: cs) = .ok (v, rest) := by
  rw [readScalar, (readConstant_of_isDigit hc cs).1, readNumber_of_isDigit hc, h]

theorem readScalar_minus {c : Char} {cs : List Char} (hc : isDigit c = true) {v : Value}
    {rest : List Char} (h : readUnsigned true (c :: cs) = some (v, rest)) :
    readScalar ('-' :: c :: cs) = .ok (v, rest) := by
  rw [readScalar, (readConstant_of_isDigit hc cs).2, readNumber_minus, h]

theorem readScalar_write_int (n : Int) {rest : List Char} (h : EndsNumber rest) :
    readScalar (Numeral.write n ++ rest) = .ok (.int n, rest) := by
  cases n with
  | ofNat n =>
      have hread := readUnsigned_digits false n h
      obtain ⟨c, cs, hdigits, hc⟩ := exists_cons_digits n
      rw [Numeral.write]
      rw [hdigits] at hread ⊢
      exact readScalar_digits hc hread
  | negSucc n =>
      have hread := readUnsigned_digits true (n + 1) h
      obtain ⟨c, cs, hdigits, hc⟩ := exists_cons_digits (n + 1)
      rw [Numeral.write]
      rw [hdigits] at hread ⊢
      exact readScalar_minus hc hread

theorem readScalar_write_float {x : Binary64} (hx : x.Canonical) {rest : List Char}
    (h : EndsNumber rest) : readScalar (write (.float x) ++ rest) = .ok (.float x, rest) := by
  cases x with
  | nan => cases hx
  | infinite negative => cases negative <;> rfl
  | finite negative significand exponent =>
      have hread := readUnsigned_magnitudeText negative hx h
      obtain ⟨c, cs, htext, hc⟩ := exists_cons_magnitudeText significand exponent
      rw [write, Binary64.textWith]
      rw [htext] at hread ⊢
      cases negative with
      | false => exact readScalar_digits hc hread
      | true => exact readScalar_minus hc hread

theorem exists_cons_write (v : Value) : ∃ c cs, write v = c :: cs ∧ c ∈ startChars := by
  cases v with
  | null => exact ⟨_, _, rfl, by decide⟩
  | bool b => cases b <;> exact ⟨_, _, rfl, by decide⟩
  | int n =>
      cases n with
      | ofNat n =>
          obtain ⟨c, cs, hdigits, hc⟩ := exists_cons_digits n
          exact ⟨c, cs, hdigits, mem_startChars_of_isDigit hc⟩
      | negSucc n => exact ⟨_, _, rfl, by decide⟩
  | float x =>
      cases x with
      | nan => exact ⟨_, _, rfl, by decide⟩
      | infinite negative => cases negative <;> exact ⟨_, _, rfl, by decide⟩
      | finite negative significand exponent =>
          cases negative with
          | false =>
              obtain ⟨c, cs, htext, hc⟩ := exists_cons_magnitudeText significand exponent
              exact ⟨c, cs, htext, mem_startChars_of_isDigit hc⟩
          | true => exact ⟨_, _, rfl, by decide⟩
  | string s => exact ⟨_, _, rfl, by decide⟩
  | array items => exact ⟨_, _, rfl, by decide⟩
  | object members => exact ⟨_, _, rfl, by decide⟩

theorem exists_cons_writeItems (x : Value) (xs : List Value) :
    ∃ c cs, writeItems (x :: xs) = c :: cs ∧ c ∈ startChars := by
  obtain ⟨c, cs, hx, hc⟩ := exists_cons_write x
  cases xs with
  | nil => exact ⟨c, cs, hx, hc⟩
  | cons y ys => exact ⟨c, _, by rw [writeItems, hx]; rfl, hc⟩

theorem exists_cons_writeMembers (x : Text × Value) (xs : List (Text × Value)) :
    ∃ cs, writeMembers (x :: xs) = '"' :: cs := by
  obtain ⟨name, x⟩ := x
  cases xs with
  | nil => exact ⟨_, rfl⟩
  | cons y ys => exact ⟨_, rfl⟩

theorem endsNumber_cons {c : Char} {rest : List Char} (h : c ∈ [',', ']', '\x7d']) :
    EndsNumber (c :: rest) := by
  have hall : ∀ c ∈ [',', ']', '\x7d'], isDigit c = false ∧ c ≠ '.' ∧ c ≠ 'e' ∧ c ≠ 'E' := by
    simp [isDigit]
  intro d hd
  obtain rfl : c = d := Option.some.inj hd
  exact hall c h

theorem readName_writeString {name : Text} (h : name.Joined) {c : Char} (hc : c ∈ startChars)
    (rest : List Char) : readName (writeString name ++ ':' :: c :: rest) = .ok (name, c :: rest) := by
  have hchars (opening : List Char) : readChars opening 0
      (name.flatMap escapePoint ++ ('"' :: ':' :: c :: rest)) = .ok (name, ':' :: c :: rest) :=
    readChars_writeString opening _ h
  have hcolon : skipSpace (':' :: c :: rest) = ':' :: c :: rest := rfl
  simp [writeString, readName, hchars, hcolon, skipSpace_of_start hc]

theorem readValue_scalar {c : Char} (h : c ∉ ['"', '[', '\x7b']) (fuel : Nat) (cs : List Char) :
    readValue (fuel + 1) (c :: cs) = readScalar (c :: cs) := by
  unfold readValue
  split <;> simp_all

theorem readValue_digits {c : Char} (hc : isDigit c = true) (fuel : Nat) (cs : List Char) :
    readValue (fuel + 1) (c :: cs) = readScalar (c :: cs) := by
  refine readValue_scalar ?_ fuel cs
  have hall : ∀ d ∈ ['"', '[', '\x7b'], isDigit d = false := by simp [isDigit]
  exact fun hmem => Bool.false_ne_true ((hall c hmem).symm.trans hc)

theorem readValue_write_int (fuel : Nat) (n : Int) {rest : List Char} (h : EndsNumber rest) :
    readValue (fuel + 1) (write (.int n) ++ rest) = .ok (.int n, rest) := by
  rw [← readScalar_write_int n h]
  cases n with
  | ofNat n =>
      obtain ⟨c, cs, hdigits, hc⟩ := exists_cons_digits n
      rw [write, Numeral.write, hdigits]
      exact readValue_digits hc fuel _
  | negSucc n => exact readValue_scalar (by decide) fuel _

theorem readValue_write_float (fuel : Nat) {x : Binary64} (hx : x.Canonical) {rest : List Char}
    (h : EndsNumber rest) : readValue (fuel + 1) (write (.float x) ++ rest) = .ok (.float x, rest) := by
  rw [← readScalar_write_float hx h]
  cases x with
  | nan => cases hx
  | infinite negative => cases negative <;> rfl
  | finite negative significand exponent =>
      cases negative with
      | false =>
          obtain ⟨c, cs, htext, hc⟩ := exists_cons_magnitudeText significand exponent
          rw [write, Binary64.textWith, htext]
          exact readValue_digits hc fuel _
      | true => exact readValue_scalar (by decide) fuel _

theorem readValue_array {fuel : Nat} {c : Char} (hc : c ∈ startChars) {cs rest : List Char}
    {items : List Value} (h : readItems fuel (c :: cs) = .ok (items, rest)) :
    readValue (fuel + 1) ('[' :: c :: cs) = .ok (.array items, rest) := by
  have hclose : c ≠ ']' := (startChars_spec c hc).2.1
  simp [readValue, skipSpace_of_start hc, hclose, h]

theorem readItems_cons {fuel : Nat} {c : Char} (hc : c ∈ startChars) {cs after rest : List Char}
    {x : Value} {items : List Value} (hx : readValue fuel cs = .ok (x, ',' :: c :: after))
    (h : readItems fuel (c :: after) = .ok (items, rest)) :
    readItems (fuel + 1) cs = .ok (x :: items, rest) := by
  have hcomma : skipSpace (',' :: c :: after) = ',' :: c :: after := rfl
  simp [readItems, hx, hcomma, skipSpace_of_start hc, h]

theorem readValue_object {fuel : Nat} {cs rest : List Char} {members : List (Text × Value)}
    (h : readMembers fuel [] ('"' :: cs) = .ok (members, rest)) :
    readValue (fuel + 1) ('\x7b' :: '"' :: cs) = .ok (.object members, rest) := by
  have hquote : skipSpace ('"' :: cs) = '"' :: cs := rfl
  simp [readValue, hquote, h]

theorem readMembers_last {fuel : Nat} {name : Text} {before : List (Text × Value)}
    {cs start rest : List Char} {x : Value} (hname : readName cs = .ok (name, start))
    (hx : readValue fuel start = .ok (x, '\x7d' :: rest)) :
    readMembers (fuel + 1) before cs = .ok (Table.put name x before, rest) := by
  have hbrace : skipSpace ('\x7d' :: rest) = '\x7d' :: rest := rfl
  simp [readMembers, hname, hx, hbrace]

theorem readMembers_cons {fuel : Nat} {name : Text} {before : List (Text × Value)}
    {cs start after : List Char} {x : Value} (hname : readName cs = .ok (name, start))
    (hx : readValue fuel start = .ok (x, ',' :: '"' :: after)) :
    readMembers (fuel + 1) before cs = readMembers fuel (Table.put name x before) ('"' :: after) := by
  have hcomma : skipSpace (',' :: '"' :: after) = ',' :: '"' :: after := rfl
  have hquote : skipSpace ('"' :: after) = '"' :: after := rfl
  simp [readMembers, hname, hx, hcomma, hquote]

mutual

theorem readValue_write (v : Value) {fuel : Nat} {rest : List Char} (hv : v.Readable)
    (hfuel : 2 * (write v).length ≤ fuel) (hrest : EndsNumber rest) :
    readValue fuel (write v ++ rest) = .ok (v, rest) := by
  -- every value is written with a character at least, so there is a step left to read it
  obtain ⟨fuel, rfl⟩ : ∃ n, fuel = n + 1 := by
    obtain ⟨c, cs, hwrite, -⟩ := exists_cons_write v
    rw [hwrite, List.length_cons] at hfuel
    exact ⟨fuel - 1, by omega⟩
  match v with
  | .null => rfl
  | .bool b => cases b <;> rfl
  | .int n => exact readValue_write_int fuel n hrest
  | .float x => exact readValue_write_float fuel hv hrest
  | .string s =>
      have hchars (opening : List Char) : readChars opening 0
          (s.flatMap escapePoint ++ '"' :: rest) = .ok (s, rest) :=
        readChars_writeString opening _ hv
      simp [write, writeString, readValue, hchars]
  | .array [] => rfl
  | .array (x :: xs) =>
      obtain ⟨hx, hxs⟩ := List.forall_mem_cons.1 (Value.readable_array.1 hv)
      obtain ⟨c, cs, hstart, hc⟩ := exists_cons_writeItems x xs
      rw [write, List.length_append, List.length_cons] at hfuel
      have hitems : readItems fuel (writeItems (x :: xs) ++ ']' :: rest) = .ok (x :: xs, rest) :=
        readItems_write x xs hx hxs (by omega)
      rw [hstart] at hitems
      rw [write, List.cons_append, List.cons_append, List.append_assoc, hstart]
      exact readValue_array hc hitems
  | .object [] => rfl
  | .object (x :: xs) =>
      obtain ⟨hnames, hmembers⟩ := Value.readable_object.1 hv
      obtain ⟨hx, hxs⟩ := List.forall_mem_cons.1 hmembers
      obtain ⟨cs, hstart⟩ := exists_cons_writeMembers x xs
      rw [write, List.length_append, List.length_cons] at hfuel
      have hmembers : readMembers fuel [] (writeMembers (x :: xs) ++ '\x7d' :: rest) =
        .ok (x :: xs, rest) := readMembers_write [] x xs hx hxs hnames (by omega)
      rw [hstart] at hmembers
      rw [write, List.cons_append, List.cons_append, List.append_assoc, hstart]
      exact readValue_object hmembers
termination_by fuel

theorem readItems_write (x : Value) (xs : List Value) {fuel : Nat} {rest : List Char}
    (hx : x.Readable) (hxs : ∀ y ∈ xs, y.Readable)
    (hfuel : 2 * (writeItems (x :: xs)).length < fuel) :
    readItems fuel (writeItems (x :: xs) ++ ']' :: rest) = .ok (x :: xs, rest) := by
  obtain ⟨fuel, rfl⟩ : ∃ n, fuel = n + 1 := ⟨fuel - 1, by omega⟩
  match xs with
  | [] =>
      rw [writeItems] at hfuel ⊢
      have hitem : readValue fuel (write x ++ ']' :: rest) = .ok (x, ']' :: rest) :=
        readValue_write x hx (by omega) (endsNumber_cons (by simp))
      rw [readItems, hitem]
      rfl
  | y :: ys =>
      obtain ⟨c, cs, hstart, hc⟩ := exists_cons_writeItems y ys
      obtain ⟨hy, hys⟩ := List.forall_mem_cons.1 hxs
      rw [writeItems, List.length_append, List.length_cons] at hfuel
      have hitem : readValue fuel (write x ++ ',' :: (writeItems (y :: ys) ++ ']' :: rest)) =
          .ok (x, ',' :: (writeItems (y :: ys) ++ ']' :: rest)) :=
        readValue_write x hx (by omega) (endsNumber_cons (by simp))
      have hothers : readItems fuel (writeItems (y :: ys) ++ ']' :: rest) = .ok (y :: ys, rest) :=
        readItems_write y ys hy hys (by omega)
      rw [hstart] at hitem hothers
      rw [writeItems, List.append_assoc, List.cons_append, hstart]
      exact readItems_cons hc hitem hothers
termination_by fuel

theorem readMembers_write (before : List (Text × Value)) (x : Text × Value)
    (xs : List (Text × Value)) {fuel : Nat} {rest : List Char} (hx : x.2.Readable)
    (hxs : ∀ y ∈ xs, y.2.Readable) (hnames : Value.Named (before ++ x :: xs))
    (hfuel : 2 * (writeMembers (x :: xs)).length < fuel) :
    readMembers fuel before (writeMembers (x :: xs) ++ '\x7d' :: rest) =
      .ok (before ++ x :: xs, rest) := by
  obtain ⟨fuel, rfl⟩ : ∃ n, fuel = n + 1 := ⟨fuel - 1, by omega⟩
  -- no name comes twice, so each member goes to the end of those that are read
  have hput : Table.put x.1 x.2 before = before ++ [x] := by
    have hdistinct := hnames.distinct
    rw [Table.keys, List.map_append, List.map_cons, List.nodup_append] at hdistinct
    exact Table.put_of_notMem fun hmem => hdistinct.2.2 _ hmem _ List.mem_cons_self rfl
  have hname : x.1.Joined := hnames.joined x (by simp)
  obtain ⟨name, x⟩ := x
  obtain ⟨c, cs, hstart, hc⟩ := exists_cons_write x
  match xs with
  | [] =>
      rw [writeMembers, List.length_append, List.length_cons] at hfuel
      have hvalue : readValue fuel (write x ++ '\x7d' :: rest) = .ok (x, '\x7d' :: rest) :=
        readValue_write x hx (by omega) (endsNumber_cons (by simp))
      rw [← hput, writeMembers, List.append_assoc, List.cons_append]
      rw [hstart] at hvalue ⊢
      exact readMembers_last (readName_writeString hname hc _) hvalue
  | y :: ys =>
      obtain ⟨hy, hys⟩ := List.forall_mem_cons.1 hxs
      obtain ⟨ds, hnext⟩ := exists_cons_writeMembers y ys
      rw [writeMembers, List.length_append, List.length_append, List.length_cons,
        List.length_cons] at hfuel
      have hvalue : readValue fuel (write x ++ ',' :: (writeMembers (y :: ys) ++ '\x7d' :: rest)) =
          .ok (x, ',' :: (writeMembers (y :: ys) ++ '\x7d' :: rest)) :=
        readValue_write x hx (by omega) (endsNumber_cons (by simp))
      have hothers : readMembers fuel (before ++ [(name, x)])
          (writeMembers (y :: ys) ++ '\x7d' :: rest) = .ok (before ++ (name, x) :: y :: ys, rest) := by
        have hsplit : before ++ (name, x) :: y :: ys = before ++ [(name, x)] ++ y :: ys := by simp
        rw [hsplit] at hnames ⊢
        exact readMembers_write _ y ys hy hys hnames (by omega)
      rw [hnext] at hvalue hothers
      rw [writeMembers, List.append_assoc, List.append_assoc, List.cons_append, List.cons_append, hnext]
      rw [hstart] at hvalue ⊢
      rw [← hothers, ← hput]
      exact readMembers_cons (readName_writeString hname hc _) hvalue
termination_by fuel

end

theorem read_write {v : Value} (hv : v.Readable) : read (write v) = .ok v := by
  obtain ⟨c, cs, hstart, hc⟩ := exists_cons_write v
  have hvalue : readValue (2 * (write v).length + 2) (write v ++ []) = .ok (v, []) :=
    readValue_write v hv (by omega) nofun
  rw [List.append_nil, hstart, List.length_cons] at hvalue
  have hmark : c ≠ '\ufeff' := (startChars_spec c hc).2.2
  have hend : skipSpace [] = [] := rfl
  simp [read, readAll, hstart, hmark, skipSpace_of_start hc, hvalue, hend]

end Json

end SpanForest
