import SpanForest.Proofs.Span.Accepted
import SpanForest.Span.Stream

/-!
Reading that passes over what is malformed. The ideal reading takes each element and each line by
itself: the spans are those of the elements that are spans, and a line that has no elements has a
warning. A number that is infinite where an integer is wanted is the one fault that is not passed
over, so the reading is the ideal one exactly if no element comes to that.
-/

namespace SpanForest

theorem Fault.isMalformed_eq_false_iff {e : Fault} :
    e.isMalformed = false ↔ e = .infiniteNumber := by
  cases e <;> simp [isMalformed]

abbrev EndsMild {α : Type} (x : Except Fault α) : Prop := Ends (·.isMalformed = true) (fun _ => True) x

namespace Value

def Finite (v : Value) : Prop := v.Every (∀ negative, · ≠ .float (.infinite negative))

theorem finite_null : ∀ negative, Value.null ≠ .float (.infinite negative) := by simp

theorem Finite.toInteger {v : Value} (h : v.Finite) : EndsMild v.toInteger := by
  cases v with
  | float x =>
      cases x with
      | nan => rfl
      | infinite negative => exact absurd rfl (h negative)
      | finite negative significand exponent => trivial
  | string s =>
      rw [Value.toInteger]
      cases Numeral.read? s with
      | none => rfl
      | some n => trivial
  | bool b => trivial
  | int n => trivial
  | _ => rfl

theorem Finite.optionalInteger {v : Value} (h : v.Finite) : EndsMild v.optionalInteger := by
  rw [Value.optionalInteger]
  split
  · have hinteger := h.toInteger
    cases hread : v.toInteger with
    | error e => exact hinteger.of_error hread
    | ok n => trivial
  · trivial

end Value

namespace Fields

variable {f : Fields} (h : (Value.object f.members).Finite) (name other : Text)
include h

theorem finite_get : (f.get name).Finite := every_get Value.finite_null h name

theorem finite_either : (f.either name other).Finite := every_either Value.finite_null h name other

theorem require_mild (field : String) :
    Ends (·.isMalformed = true) (·.Finite) (f.require field) := by
  unfold require
  split
  · next hfind => exact (Value.every_object.1 h).2 _ (Table.mem_of_find? hfind)
  · rfl

end Fields

theorem Id.ofValue_mild (v : Value) : EndsMild (ofValue v) := by
  unfold ofValue
  split
  · split
    · trivial
    · rfl
  · trivial

theorem Endpoint.read_mild {v : Value} (h : v.Finite) : EndsMild (read v) := by
  unfold read
  split
  · next members =>
    have hport := (Fields.finite_get (f := ⟨members⟩) h "port").optionalInteger
    dsimp only
    split
    · next hread => exact hport.of_error hread
    · trivial
  · trivial

namespace Annotation

theorem elements_mild {v : Value} (h : v.Finite) :
    Ends (·.isMalformed = true) (fun items => ∀ x ∈ items, x.Finite) (elements v) := by
  unfold elements
  split
  · split
    · exact (Value.every_array.1 h).2
    · exact List.forall_mem_nil _
    · exact List.forall_mem_nil _
    · rfl
  · exact List.forall_mem_nil _

theorem read_mild {f : Fields} (h : (Value.object f.members).Finite) : EndsMild (read f) := by
  refine (Fields.require_mild h "timestamp").bind fun timestamp htimestamp => ?_
  refine htimestamp.toInteger.bind fun n _ => ?_
  refine (Fields.require_mild h "value").bind fun value _ => ?_
  trivial

theorem readItems_mild {items : List Value} (h : ∀ x ∈ items, x.Finite) :
    EndsMild (readItems items) := by
  fun_induction readItems items with
  | case1 => trivial
  | case2 members rest ih =>
      obtain ⟨hmembers, hrest⟩ := List.forall_mem_cons.1 h
      refine (read_mild hmembers).bind fun a _ => ?_
      refine (ih hrest).bind fun tail _ => ?_
      trivial
  | case3 item rest _ ih => exact ih (List.forall_mem_cons.1 h).2

end Annotation

namespace Span

theorem readFields_mild {f : Fields} (h : (Value.object f.members).Finite) : EndsMild (readFields f) := by
  refine (Id.ofValue_mild _).bind fun traceId _ => ?_
  refine (Fields.require_mild h "id").bind fun given _ => ?_
  refine (Id.ofValue_mild given).bind fun id _ => ?_
  split
  · rfl
  split
  · rfl
  refine (Id.ofValue_mild _).bind fun parentId _ => ?_
  have helements := Annotation.elements_mild (Fields.finite_get h "annotations")
  refine helements.bind fun items hitems => ?_
  have hreadItems := Annotation.readItems_mild hitems
  refine hreadItems.bind_of_eq fun found hfound => ?_
  refine (Fields.finite_get h _).optionalInteger.bind fun timestamp _ => ?_
  refine (Fields.finite_get h _).optionalInteger.bind fun duration _ => ?_
  refine (Endpoint.read_mild (Fields.finite_either h _ _)).bind fun localEndpoint _ => ?_
  refine (Endpoint.read_mild (Fields.finite_either h _ _)).bind fun remoteEndpoint _ => ?_
  -- what is read has numbers for timestamps and texts for values, so sorting cannot fail
  have hsorted := Annotation.sort_eq <| Annotation.wellTyped_of_readItems hfound
  rw [hsorted]
  trivial

/-- An element that comes to an infinite number where an integer is wanted. -/
def Overflows (v : Value) : Prop := read v = .error .infiniteNumber

theorem not_overflows_of_finite {v : Value} (h : v.Finite) : ¬ Overflows v := by
  intro hover
  cases v with
  | object members =>
      have hmild : EndsMild (read (.object members)) := readFields_mild (f := ⟨members⟩) h
      rw [hover] at hmild
      cases hmild
  | _ => cases hover

def ofElement (v : Value) : List Span :=
  match read v with
  | .ok s => [s]
  | .error _ => []

theorem readItems_eq {items : List Value} (h : ∀ v ∈ items, ¬ Overflows v) :
    readItems items = .ok (items.flatMap ofElement) := by
  induction items with
  | nil => rfl
  | cons v rest ih =>
      obtain ⟨hv, hrest⟩ := List.forall_mem_cons.1 h
      rw [List.flatMap_cons]
      cases v with
      | object members =>
          have hread : read (.object members) = readFields ⟨members⟩ := rfl
          rw [readItems, ih hrest, ofElement, hread]
          cases hfields : readFields ⟨members⟩ with
          | ok s => rfl
          | error e =>
              have hmalformed : e.isMalformed = true := by
                refine Bool.of_not_eq_false fun hfalse => hv ?_
                rw [Overflows, hread, hfields, Fault.isMalformed_eq_false_iff.1 hfalse]
              dsimp only
              rw [if_pos hmalformed]
              rfl
      | _ => exact ih hrest

theorem readItems_eq_error {items : List Value} {v : Value} (hv : v ∈ items) (h : Overflows v) :
    readItems items = .error .infiniteNumber := by
  induction items with
  | nil => cases hv
  | cons w rest ih =>
      cases w with
      | object members =>
          have hread : read (.object members) = readFields ⟨members⟩ := rfl
          rw [readItems]
          rcases List.mem_cons.1 hv with rfl | hv
          · rw [Overflows, hread] at h
            rw [h]
            rfl
          · cases hfields : readFields ⟨members⟩ with
            | ok s =>
                dsimp only
                rw [ih hv]
            | error e =>
                dsimp only
                split
                · exact ih hv
                · next hmalformed =>
                  rw [Fault.isMalformed_eq_false_iff.1 (Bool.eq_false_iff.2 hmalformed)]
      | _ =>
          rcases List.mem_cons.1 hv with rfl | hv
          · cases h
          · exact ih hv

/-- The spans of a line, element by element. A line without elements has none. -/
def ofLine (line : List Char) : List Span :=
  match lineElements (Text.trimList line) with
  | .ok items => items.flatMap ofElement
  | .error _ => []

/-- An element of the line comes to an infinite number. -/
def LineOverflows (line : List Char) : Prop :=
  ∃ items, lineElements (Text.trimList line) = .ok items ∧ ∃ v ∈ items, Overflows v

theorem not_lineOverflows_of_finite {line : List Char}
    (h : ∀ v, Json.read (Text.trimList line) = .ok v → v.Finite) : ¬ LineOverflows line := by
  rintro ⟨items, hitems, v, hv, hover⟩
  cases hvalue : Json.read (Text.trimList line) with
  | error e =>
      rw [lineElements, hvalue] at hitems
      cases hitems
  | ok w => exact not_overflows_of_finite (every_of_lineElements hvalue (h w hvalue) hitems v hv) hover

theorem isOfLine_of_lineElements {line : List Char} {e : Fault} (h : lineElements line = .error e) :
    e.isOfLine = true := by
  unfold lineElements at h
  split at h
  · next hread =>
    obtain rfl := Except.error.inj h
    unfold Json.read at hread
    split at hread
    · cases hread
    · rw [← Except.error.inj hread]
      rfl
  · cases h
  · cases h
  · rw [← Except.error.inj h]
    rfl

end Span

/-- The warning that a line has if it is neither blank nor holds elements. -/
def LineWarning.of? (number : Nat) (line : List Char) : Option LineWarning :=
  let shown := Text.trimList line
  if shown.isEmpty then none
  else
    match Span.lineElements shown with
    | .ok _ => none
    | .error fault => some ⟨number, fault⟩

namespace Reading

/-- The reading that takes each line by itself. -/
def isolated (number : Nat) (lines : List (List Char)) : Reading :=
  ⟨.ok (lines.flatMap Span.ofLine),
    (lines.zipIdx number).filterMap fun entry => LineWarning.of? entry.2 entry.1⟩

theorem isolated_cons (number : Nat) (line : List Char) (rest : List (List Char)) :
    isolated number (line :: rest) =
      (isolated (number + 1) rest).prepend (Span.ofLine line) (LineWarning.of? number line).toList := by
  rw [isolated, List.flatMap_cons, List.zipIdx_cons, List.filterMap_cons]
  cases h : LineWarning.of? number line <;> simp [isolated, prepend, Except.map]

end Reading

variable {lines : List (List Char)}

theorem readLines_cons {ending : Reading} {number : Nat} {line : List Char} {rest : List (List Char)}
    (h : ¬ Span.LineOverflows line) : readLines ending number (line :: rest) =
      (readLines ending (number + 1) rest).prepend (Span.ofLine line)
        (LineWarning.of? number line).toList := by
  have hnothing (r : Reading) : r.prepend [] [] = r := by
    obtain ⟨outcome, warnings⟩ := r
    cases outcome <;> rfl
  rw [readLines, Span.ofLine, LineWarning.of?]
  split
  · next hblank =>
    have hempty : Text.trimList line = [] := List.isEmpty_iff.1 hblank
    rw [hempty]
    exact (hnothing _).symm
  · rw [Span.readLine_eq]
    cases hitems : Span.lineElements (Text.trimList line) with
    | ok items =>
        have hread := Span.readItems_eq fun v hv hover => h ⟨items, hitems, v, hv, hover⟩
        have hbind : (Except.ok items >>= Span.readItems) = Span.readItems items := rfl
        rw [hbind, hread]
        rfl
    | error fault =>
        have hbind : ((Except.error fault : Except Fault _) >>= Span.readItems) = .error fault := rfl
        rw [hbind]
        dsimp only
        rw [if_pos (Span.isOfLine_of_lineElements hitems)]
        rfl

theorem readLines_cons_of_overflows {ending : Reading} {number : Nat} {line : List Char}
    {rest : List (List Char)} (h : Span.LineOverflows line) :
    readLines ending number (line :: rest) = .interrupted .infiniteNumber := by
  obtain ⟨items, hitems, v, hv, hover⟩ := h
  have hread : Span.readLine (Text.trimList line) = .error .infiniteNumber := by
    rw [Span.readLine_eq, hitems]
    exact Span.readItems_eq_error hv hover
  have hshown : (Text.trimList line).isEmpty = false := by
    cases htrim : Text.trimList line with
    | nil =>
        rw [htrim] at hitems
        cases hitems
    | cons c cs => rfl
  rw [readLines]
  rw [hshown, if_neg Bool.false_ne_true, hread]
  rfl

theorem readLines_isolated (number : Nat) (h : ∀ line ∈ lines, ¬ Span.LineOverflows line) :
    readLines (atEnd none) number lines = .isolated number lines := by
  induction lines generalizing number with
  | nil => rfl
  | cons line rest ih =>
      obtain ⟨hline, hrest⟩ := List.forall_mem_cons.1 h
      rw [readLines_cons hline, Reading.isolated_cons, ih _ hrest]

theorem readLines_interrupted (number : Nat) (h : ∃ line ∈ lines, Span.LineOverflows line) :
    (readLines (atEnd none) number lines).outcome = .error .infiniteNumber := by
  induction lines generalizing number with
  | nil =>
      obtain ⟨line, hline, -⟩ := h
      cases hline
  | cons line rest ih =>
      by_cases hover : Span.LineOverflows line
      · rw [readLines_cons_of_overflows hover]
        rfl
      · have hrest : ∃ line ∈ rest, Span.LineOverflows line := by
          obtain ⟨other, hmem, hother⟩ := h
          rcases List.mem_cons.1 hmem with rfl | hmem
          · exact absurd hother hover
          · exact ⟨other, hmem, hother⟩
        rw [readLines_cons hover, Reading.prepend, ih _ hrest]
        rfl

/-- The reading of a text takes each element and each line by itself exactly if no element comes to an
infinite number; if one does, the reading fails. -/
theorem readText_isolates_iff (cs : List Char) :
    (readText cs = .isolated 1 (Text.lines '\n' cs) ↔
        ∀ line ∈ Text.lines '\n' cs, ¬ Span.LineOverflows line) ∧
      ((∃ line ∈ Text.lines '\n' cs, Span.LineOverflows line) →
        (readText cs).outcome = .error .infiniteNumber) := by
  have hfails (h : ∃ line ∈ Text.lines '\n' cs, Span.LineOverflows line) :
      (readText cs).outcome = .error .infiniteNumber := readLines_interrupted 1 h
  refine ⟨⟨fun heq line hline hover => ?_, fun h => readLines_isolated 1 h⟩, hfails⟩
  have hfail := hfails ⟨line, hline, hover⟩
  rw [heq] at hfail
  cases hfail

theorem readText_isolated_of_finite {cs : List Char}
    (h : ∀ line ∈ Text.lines '\n' cs, ∀ v, Json.read (Text.trimList line) = .ok v → v.Finite) :
    readText cs = .isolated 1 (Text.lines '\n' cs) :=
  readLines_isolated 1 fun line hline => Span.not_lineOverflows_of_finite (h line hline)

/-- A line of two spans, of which the first has a timestamp beyond all numbers. -/
def infiniteText : List Char :=
  "[\x7b\"traceId\":\"1\",\"id\":\"1\",\"timestamp\":1e400\x7d,".toList ++
  "\x7b\"traceId\":\"1\",\"id\":\"2\"\x7d]".toList

/-- The first element is no span, and the second is lost with it. -/
theorem not_isolated_infiniteText :
    (readText infiniteText).outcome.toOption = none ∧
      (Reading.isolated 1 (Text.lines '\n' infiniteText)).outcome.toOption =
        some [{ traceId := .string "0000000000000001", id := .string "0000000000000002" }] ∧
      readText infiniteText ≠ .isolated 1 (Text.lines '\n' infiniteText) := by
  have hfails : (readText infiniteText).outcome.toOption = none := by decide +kernel
  refine ⟨hfails, by decide +kernel, fun heq => ?_⟩
  rw [heq] at hfails
  cases hfails

end SpanForest
