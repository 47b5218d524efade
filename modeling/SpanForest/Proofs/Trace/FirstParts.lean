import Mathlib.Logic.Relation
import SpanForest.Proofs.Trace.SettledId

/-!
The scan and the legs part the spans in the same places. The scan is followed one span at a time: it
takes a span as the first part of a leg, or passes over it as a further part of the leg it is in.
What it takes are the first parts of the legs, and its trace id is told from theirs. The order of
the spans does not matter. All fields are taken to be of their declared kinds, since a merge may
fail otherwise.
-/

namespace SpanForest.Trace

namespace Scan

/-- The scan on its way: the first parts taken, what it knows, and the spans still ahead. -/
structure Pass where
  taken : List Span
  state : Scan
  ahead : List Span

/-- One span of the scan, which is compared with the last first part taken. -/
inductive Step : Pass → Pass → Prop
  | part {taken : List Span} {state : Scan} {first next : Span} {ahead : List Span}
      (hfirst : taken.getLast? = some first) (hsame : next.sameLeg first = true) :
      Step ⟨taken, state, next :: ahead⟩ ⟨taken, state.flag true, ahead⟩
  | first {taken : List Span} {state met : Scan} {next : Span} {ahead : List Span}
      (hother : ∀ s ∈ taken.getLast?, next.sameLeg s = false)
      (hmeet : (state.flag (taken.getLast?.any fun s => missesParent s next)).meet next = .ok met) :
      Step ⟨taken, state, next :: ahead⟩ ⟨taken ++ [next], met, ahead⟩

/-- The scan ends with what it found after it took these as first parts. -/
def Takes (traceId : Value) (spans firsts : List Span) (found : Scan) : Prop :=
  Relation.ReflTransGen Step ⟨[], ⟨traceId, false⟩, spans⟩ ⟨firsts, found, []⟩

namespace Pass

def finish (c : Pass) : Except Fault Scan :=
  match c.taken.getLast?, c.ahead with
  | some first, ahead => c.state.goOn first ahead
  | none, [] => .ok c.state
  | none, next :: ahead => c.state.meet next >>= fun met => met.goOn next ahead

theorem finish_nil (taken : List Span) (state : Scan) : finish ⟨taken, state, []⟩ = .ok state := by
  rw [finish]
  cases taken.getLast? with
  | none => rfl
  | some first => rfl

theorem finish_part {taken : List Span} {first next : Span} (hfirst : taken.getLast? = some first)
    (hsame : next.sameLeg first = true) (state : Scan) (ahead : List Span) :
    finish ⟨taken, state, next :: ahead⟩ = finish ⟨taken, state.flag true, ahead⟩ := by
  simp only [finish, hfirst]
  rw [goOn, if_pos hsame]

theorem finish_first {taken : List Span} {next : Span}
    (hother : ∀ s ∈ taken.getLast?, next.sameLeg s = false) (state : Scan) (ahead : List Span) :
    finish ⟨taken, state, next :: ahead⟩ =
      (state.flag (taken.getLast?.any fun s => missesParent s next)).meet next >>=
        fun met => finish ⟨taken ++ [next], met, ahead⟩ := by
  have hnext (met : Scan) : finish ⟨taken ++ [next], met, ahead⟩ = met.goOn next ahead := by
    simp only [finish, List.getLast?_concat]
  simp only [hnext]
  cases hlast : taken.getLast? with
  | none =>
      simp only [finish, hlast, Option.any_none, flag, Bool.or_false]
  | some first =>
      have hsame : next.sameLeg first = false := hother first hlast
      simp only [finish, hlast, Option.any_some]
      rw [goOn, hsame, if_neg Bool.false_ne_true]
      cases (state.flag (missesParent first next)).meet next with
      | error e => rfl
      | ok met => rfl

theorem exists_steps {taken ahead : List Span} {state found : Scan}
    (h : finish ⟨taken, state, ahead⟩ = .ok found) :
    ∃ firsts, Relation.ReflTransGen Step ⟨taken, state, ahead⟩ ⟨firsts, found, []⟩ := by
  induction ahead generalizing taken state with
  | nil =>
      rw [finish_nil] at h
      obtain rfl := Except.ok.inj h
      exact ⟨taken, .refl⟩
  | cons next ahead ih =>
      by_cases hsame : ∃ s ∈ taken.getLast?, next.sameLeg s = true
      · obtain ⟨first, hfirst, hsame⟩ := hsame
        rw [finish_part hfirst hsame] at h
        obtain ⟨firsts, hsteps⟩ := ih h
        exact ⟨firsts, .head (.part hfirst hsame) hsteps⟩
      · have hother : ∀ s ∈ taken.getLast?, next.sameLeg s = false := by
          intro s hs
          exact Bool.eq_false_iff.2 fun htrue => hsame ⟨s, hs, htrue⟩
        rw [finish_first hother] at h
        obtain ⟨met, hmeet, h⟩ := exists_of_bind_ok h
        obtain ⟨firsts, hsteps⟩ := ih h
        exact ⟨firsts, .head (.first hother hmeet) hsteps⟩

def legsAhead (c : Pass) : List Leg :=
  match c.taken.getLast? with
  | none => legs c.ahead
  | some first => (legs (first :: c.ahead)).tail

theorem legsAhead_cons {taken ahead : List Span} {next : Span}
    (hother : ∀ s ∈ taken.getLast?, next.sameLeg s = false) (htaken : ∀ s ∈ taken, s.WellTyped)
    (hnext : next.WellTyped) (state : Scan) :
    legsAhead ⟨taken, state, next :: ahead⟩ = legs (next :: ahead) := by
  cases hlast : taken.getLast? with
  | none => simp only [legsAhead, hlast]
  | some last =>
      have htyped : last.WellTyped := htaken last (List.mem_of_getLast? hlast)
      have hkey : next.legKey ≠ last.legKey := by
        intro hkey
        have hsame := (Span.sameLeg_iff hnext htyped).2 hkey
        exact Bool.false_ne_true ((hother last hlast).symm.trans hsame)
      simp only [legsAhead, hlast]
      rw [tail_legs_cons ahead htyped hnext, if_neg hkey]

def firstParts (c : Pass) : List Span := c.taken ++ c.legsAhead.map Leg.first

end Pass

theorem Step.finish_eq {c d : Pass} (h : Step c d) {found : Scan} (hfound : d.finish = .ok found) :
    c.finish = .ok found := by
  cases h with
  | part hfirst hsame => rwa [Pass.finish_part hfirst hsame]
  | first hother hmeet => rwa [Pass.finish_first hother, hmeet]

theorem Step.firstParts_eq {c d : Pass} (h : Step c d) (typed : ∀ s ∈ c.taken ++ c.ahead, s.WellTyped) :
    (∀ s ∈ d.taken ++ d.ahead, s.WellTyped) ∧ d.firstParts = c.firstParts := by
  cases h with
  | @part taken state first next ahead hfirst hsame =>
      obtain ⟨htaken, hahead⟩ := List.forall_mem_append.1 typed
      obtain ⟨hnext, hahead⟩ := List.forall_mem_cons.1 hahead
      have htyped : first.WellTyped := htaken first (List.mem_of_getLast? hfirst)
      -- a part that is passed over leaves the legs ahead as they are
      have hkey := (Span.sameLeg_iff hnext htyped).1 hsame
      refine ⟨List.forall_mem_append.2 ⟨htaken, hahead⟩, ?_⟩
      simp only [Pass.firstParts, Pass.legsAhead, hfirst]
      rw [tail_legs_cons ahead htyped hnext, if_pos hkey, tail_legs_congr hnext htyped hahead hkey]
  | @first taken state met next ahead hother hmeet =>
      rw [List.append_cons] at typed
      refine ⟨typed, ?_⟩
      obtain ⟨htaken, hahead⟩ := List.forall_mem_append.1 typed
      obtain ⟨htaken, hnext⟩ := List.forall_mem_append.1 htaken
      have hnext : next.WellTyped := hnext next List.mem_cons_self
      obtain ⟨others, more, hlegs⟩ := exists_legs_cons next ahead
      have htail : Pass.legsAhead ⟨taken ++ [next], met, ahead⟩ = more := by
        simp only [Pass.legsAhead, List.getLast?_concat, hlegs, List.tail_cons]
      rw [Pass.firstParts, Pass.firstParts, htail, Pass.legsAhead_cons hother htaken hnext, hlegs]
      exact (List.append_cons taken next _).symm

theorem firstParts_steps {c d : Pass} (h : Relation.ReflTransGen Step c d)
    (typed : ∀ s ∈ c.taken ++ c.ahead, s.WellTyped) : d.firstParts = c.firstParts := by
  induction h using Relation.ReflTransGen.head_induction_on with
  | refl => rfl
  | head hstep _ ih =>
      obtain ⟨htyped, hsame⟩ := hstep.firstParts_eq typed
      rw [ih htyped, hsame]

theorem finish_steps {c d : Pass} (h : Relation.ReflTransGen Step c d) {found : Scan}
    (hfound : d.finish = .ok found) : c.finish = .ok found := by
  induction h using Relation.ReflTransGen.head_induction_on with
  | refl => exact hfound
  | head hstep _ ih => exact hstep.finish_eq ih

end Scan

open Scan

theorem finish_start (traceId : Value) (spans : List Span) :
    Pass.finish ⟨[], ⟨traceId, false⟩, spans⟩ = scan traceId spans := by
  cases spans with
  | nil => rfl
  | cons next ahead =>
      simp only [Pass.finish, List.getLast?_nil]
      rw [scan]
      cases Scan.meet ⟨traceId, false⟩ next with
      | error e => rfl
      | ok met => rfl

theorem exists_takes_iff {traceId : Value} {spans : List Span} {found : Scan} :
    (∃ firsts, Takes traceId spans firsts found) ↔ scan traceId spans = .ok found := by
  rw [← finish_start]
  constructor
  · rintro ⟨firsts, h⟩
    exact finish_steps h (Pass.finish_nil firsts found)
  · intro h
    exact Pass.exists_steps h

section

variable {spans : List Span} (typed : ∀ s ∈ spans, s.WellTyped)
include typed

theorem eq_first_legs_of_takes {traceId : Value} {firsts : List Span} {found : Scan}
    (h : Takes traceId spans firsts found) : firsts = (legs spans).map Leg.first := by
  have hparts := firstParts_steps h typed
  have hend : Pass.legsAhead ⟨firsts, found, []⟩ = [] := by
    rw [Pass.legsAhead]
    cases firsts.getLast? with
    | none => rfl
    | some first => rfl
  rwa [Pass.firstParts, hend, List.map_nil, List.append_nil] at hparts

theorem exists_scan (traceId : Text) : ∃ found, scan (.string traceId) spans = .ok found := by
  cases spans with
  | nil => exact ⟨_, rfl⟩
  | cons first rest =>
      obtain ⟨hfirst, hrest⟩ := List.forall_mem_cons.1 typed
      have hstart : (Scan.mk (.string traceId) false).traceId.length = .ok traceId.length := rfl
      obtain ⟨met, m, hmeet, hm, -⟩ := meet_spec hstart hfirst.workable
      obtain ⟨found, hrun, -⟩ := goOn_spec first (fun t ht => (hrest t ht).workable) hm
      refine ⟨found, ?_⟩
      rw [scan, hmeet]
      exact hrun

/-- The scan always comes to its end. It takes as first parts exactly the first spans of the longest
stretches with one key, in their order, and settles on the trace id given if that is full, else on the
earliest full one among the first parts, else on that of the last of them. -/
theorem scan_takes_firsts (traceId : Text) : ∃ found, scan (.string traceId) spans = .ok found ∧
    (∀ firsts ending, Takes (.string traceId) spans firsts ending ↔
      firsts = (legs spans).map Leg.first ∧ ending = found) ∧
    (legs spans).map Leg.parts = (spans.splitBy fun s t => s.legKey == t.legKey) ∧
    found.traceId = if Full (.string traceId) then .string traceId else
      (((legIds (legs spans)).find? fun i => Full i).or (legIds (legs spans)).getLast?).getD
        (.string traceId) := by
  obtain ⟨found, hscan⟩ := exists_scan typed traceId
  refine ⟨found, hscan, fun firsts ending => ⟨fun h => ?_, ?_⟩, parts_legs typed, ?_⟩
  · have hending := exists_takes_iff.1 ⟨firsts, h⟩
    rw [hscan] at hending
    exact ⟨eq_first_legs_of_takes typed h, (Except.ok.inj hending).symm⟩
  · rintro ⟨rfl, rfl⟩
    obtain ⟨firsts, h⟩ := exists_takes_iff.2 hscan
    rwa [← eq_first_legs_of_takes typed h]
  · rw [traceId_scan typed hscan, settledId_eq]

end

theorem scan_takes_firsts_twoLengths :
    (∀ s ∈ twoLengths "1" ++ twoLengths "2", s.WellTyped) ∧
    ∃ found, scan (.string "7b") (twoLengths "1" ++ twoLengths "2") = .ok found ∧
      (∀ firsts ending, Takes (.string "7b") (twoLengths "1" ++ twoLengths "2") firsts ending ↔
        firsts = (legs (twoLengths "1" ++ twoLengths "2")).map Leg.first ∧ ending = found) ∧
      (legs (twoLengths "1" ++ twoLengths "2")).map Leg.parts =
        ((twoLengths "1" ++ twoLengths "2").splitBy fun s t => s.legKey == t.legKey) ∧
      found.traceId = if Full (.string "7b") then .string "7b" else
        (((legIds (legs (twoLengths "1" ++ twoLengths "2"))).find? fun i => Full i).or
          (legIds (legs (twoLengths "1" ++ twoLengths "2"))).getLast?).getD (.string "7b") := by
  have typed : ∀ s ∈ twoLengths "1" ++ twoLengths "2", s.WellTyped :=
    List.forall_mem_append.2 ⟨wellTyped_twoLengths "1", wellTyped_twoLengths "2"⟩
  exact ⟨typed, scan_takes_firsts typed "7b"⟩

end SpanForest.Trace
