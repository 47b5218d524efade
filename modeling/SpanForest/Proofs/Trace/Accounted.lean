import Mathlib.Algebra.GroupWithZero.Nat
import SpanForest.Proofs.Json.Numbers
import SpanForest.Proofs.Trace.Repaired

/-!
What a repair tells its sink, read from the texts of the reports. The counts of combined parts make
up for the spans that are gone, and the copied parents are those that no part of the span had.
-/

namespace SpanForest

namespace Diagnostic

/-- The number of parts that were combined, in a report that starts with `merged` and a number. -/
def partCount? (d : Diagnostic) : Option Nat :=
  let counted := d.message.drop "merged ".length
  if (Text.ofString "merged ").isPrefixOf d.message &&
      (Text.ofString " parts").isPrefixOf (counted.dropWhile (·.meets Json.isDigit))
  then (Text.chars? (counted.takeWhile (·.meets Json.isDigit))).map Json.natOfDigits
  else none

/-- Whether this is a report that a parent id was copied. -/
def tellsCopy (d : Diagnostic) : Bool := (Text.ofString "copying parent ID").isPrefixOf d.message

end Diagnostic

namespace Trace

theorem partCount?_combinedReport (count : Nat) (traceId id : Value) :
    (combinedReport count traceId id).partCount? = some count := by
  let shown := Text.ofChars (Numeral.digits count)
  obtain ⟨rest, htext⟩ : ∃ rest, (combinedReport count traceId id).message =
      Text.ofString "merged " ++ (shown ++ (Text.ofString " parts" ++ rest)) := by
    refine ⟨Text.ofString " of span: traceId=" ++ traceId.text ++ Text.ofString ", spanId=" ++
      id.text, ?_⟩
    simp [combinedReport, combinedMessage, Numeral.digits, shown, Text.join, Text.ofString, Text.ofChars]
  have hshown : ∀ p ∈ shown, p.meets Json.isDigit = true :=
    List.forall_mem_map.2 fun _ hc => Json.isDigit_of_mem_digits hc
  have hcounted : (Text.ofString "merged " ++ (shown ++ (Text.ofString " parts" ++ rest))).drop
      "merged ".length = shown ++ (Text.ofString " parts" ++ rest) := List.drop_left' rfl
  have htake : (shown ++ (Text.ofString " parts" ++ rest)).takeWhile (·.meets Json.isDigit) = shown := by
    rw [List.takeWhile_append_of_pos hshown]
    exact List.append_nil shown
  have hdrop : (shown ++ (Text.ofString " parts" ++ rest)).dropWhile (·.meets Json.isDigit) =
      Text.ofString " parts" ++ rest := by
    rw [List.dropWhile_append_of_pos hshown]
    rfl
  simp only [Diagnostic.partCount?, htext, hcounted, htake, hdrop, shown, Text.chars?_ofChars,
    Option.map_some, Json.natOfDigits_digits]
  rw [List.isPrefixOf_iff_prefix.2 (List.prefix_append _ _),
    List.isPrefixOf_iff_prefix.2 (List.prefix_append _ _)]
  rfl

theorem tellsCopy_combinedReport (count : Nat) (traceId id : Value) :
    (combinedReport count traceId id).tellsCopy = false := rfl

theorem partCount?_copiedReport (traceId id : Value) :
    (copiedReport traceId id).partCount? = none := rfl

theorem tellsCopy_copiedReport (traceId id : Value) :
    (copiedReport traceId id).tellsCopy = true := rfl

theorem partCounts_legLog (traceId : Value) (previous : Option Span) (leg : Leg) :
    (legLog traceId previous leg).filterMap Diagnostic.partCount? =
      if 1 < leg.parts.length then [leg.parts.length] else [] := by
  rw [legLog, List.filterMap_append]
  split <;> split <;> simp [partCount?_combinedReport, partCount?_copiedReport]

theorem copies_legLog (traceId : Value) (previous : Option Span) (leg : Leg) :
    (legLog traceId previous leg).filter Diagnostic.tellsCopy =
      if previous.any fun p => missesParent p (mended traceId leg) then
        [copiedReport traceId (mended traceId leg).id] else [] := by
  rw [legLog, List.filter_append]
  split <;> split <;> simp [tellsCopy_combinedReport, tellsCopy_copiedReport]

theorem sum_partCounts_repairLog (traceId : Value) (previous : Option Span) (legs : List Leg) :
    (((repairLog traceId previous legs).filterMap Diagnostic.partCount?).map (· - 1)).sum +
      legs.length = (legs.flatMap Leg.parts).length := by
  induction legs generalizing previous with
  | nil => rfl
  | cons leg rest ih =>
      have hrest := ih (some (adopting previous (mended traceId leg)))
      have hparts : leg.parts.length = leg.others.length + 1 := rfl
      rw [repairLog, List.filterMap_append, partCounts_legLog, List.map_append, List.sum_append,
        List.flatMap_cons, List.length_append, List.length_cons, ← hrest]
      split
      · rw [List.map_singleton, List.sum_singleton]
        omega
      · rw [List.map_nil, List.sum_nil]
        omega

theorem two_le_of_mem_partCounts {traceId : Value} {previous : Option Span} {legs : List Leg} {n : Nat}
    (h : n ∈ (repairLog traceId previous legs).filterMap Diagnostic.partCount?) : 2 ≤ n := by
  induction legs generalizing previous with
  | nil => cases h
  | cons leg rest ih =>
      rw [repairLog, List.filterMap_append, partCounts_legLog, List.mem_append] at h
      rcases h with h | h
      · split at h
        · next hmany =>
            rw [List.mem_singleton.1 h]
            exact hmany
        · cases h
      · exact ih h

/-- A shared span that came out with a parent id, though its parts come to none. -/
def gainsParent (folded out : Span) : Bool :=
  out.isShared && folded.parentId.isNull && !out.parentId.isNull

theorem gainsParent_adopting (previous : Option Span) (s : Span) :
    gainsParent s (adopting previous s) = previous.any fun p => missesParent p s := by
  cases previous with
  | none => simp [gainsParent, adopting]
  | some p =>
      rw [adopting, Option.any_some]
      cases hmisses : missesParent p s with
      | true =>
          obtain ⟨-, -, hshared, horphan, hparent⟩ := missesParent_iff.1 hmisses
          have hshared' : ({ s with parentId := p.parentId } : Span).isShared = true := hshared
          rw [if_pos rfl, gainsParent, hshared', horphan, hparent]
          rfl
      | false =>
          rw [if_neg Bool.false_ne_true, gainsParent, Bool.and_assoc, Bool.and_not_self, Bool.and_false]

theorem copies_repairLog (traceId : Value) (previous : Option Span) (legs : List Leg) :
    (repairLog traceId previous legs).filter Diagnostic.tellsCopy =
      (((legs.map (mended traceId)).zip (mendAll traceId previous legs)).filter fun q =>
        gainsParent q.1 q.2).map fun q => copiedReport traceId q.2.id := by
  induction legs generalizing previous with
  | nil => rfl
  | cons leg rest ih =>
      have hid : (adopting previous (mended traceId leg)).id = (mended traceId leg).id :=
        congrArg Prod.fst (legKey_adopting previous _)
      rw [repairLog, List.filter_append, copies_legLog, ih, List.map_cons, mendAll, List.zip_cons_cons,
        List.filter_cons, gainsParent_adopting]
      split
      · rw [List.map_cons, hid]
        rfl
      · rfl

theorem length_mendAll (traceId : Value) (previous : Option Span) (legs : List Leg) :
    (mendAll traceId previous legs).length = legs.length := by
  induction legs generalizing previous with
  | nil => rfl
  | cons leg rest ih => rw [mendAll, List.length_cons, List.length_cons, ih]

/-- Nothing is told of spans that are left alone. Of a repair, the sink is told how many parts were
combined, two or more each time, in all as many beyond the first as there are spans fewer; and, in the
order in which they come out, of the shared spans that have a parent id which their parts do not come
to. -/
theorem merge_accounted (sink : Sink) (history : Delivery) {spans : List Span}
    (typed : ∀ s ∈ spans, s.WellTyped) :
    ∃ m log, (merge sink spans).run.run history = (.ok m, history.offerAll sink log) ∧
      (m = .unchanged → log = []) ∧ ∀ r, m = .repaired r →
        (∀ n ∈ log.filterMap Diagnostic.partCount?, 2 ≤ n) ∧
        ((log.filterMap Diagnostic.partCount?).map (· - 1)).sum + r.length = spans.length ∧
        ∃ first ordered found folded, spans.head? = some first ∧
          Span.cleanupSort spans = .ok ordered ∧ scan first.traceId ordered = .ok found ∧
          (legs ordered).mapM (combineLeg found.traceId) = .ok folded ∧ folded.length = r.length ∧
          log.filter Diagnostic.tellsCopy =
            ((folded.zip r).filter fun q => gainsParent q.1 q.2).map fun q =>
              copiedReport found.traceId q.2.id := by
  match spans with
  | [] => exact ⟨.unchanged, [], rfl, fun _ => rfl, nofun⟩
  | [_] => exact ⟨.unchanged, [], rfl, fun _ => rfl, nofun⟩
  | first :: second :: rest =>
      obtain ⟨ordered, found, m, hsort, hscan, hperm, htyped, -, hid, hrun, houtcome⟩ :=
        merge_reported sink history typed
      refine ⟨m, _, hrun, ?_, ?_⟩
      · intro hunchanged
        rcases houtcome with ⟨-, -, -, hnothing⟩ | hrepaired
        · exact hnothing
        · rw [hunchanged] at hrepaired
          cases hrepaired
      · intro r hr
        obtain rfl : mendAll found.traceId none (legs ordered) = r := by
          rcases houtcome with ⟨hunchanged, -⟩ | hrepaired
          · rw [hr] at hunchanged
            cases hunchanged
          · rw [hr] at hrepaired
            exact (Merged.repaired.inj hrepaired).symm
        have hfolded : (legs ordered).mapM (combineLeg found.traceId) =
            .ok ((legs ordered).map (mended found.traceId)) :=
          mapM_ok fun leg hleg => combineLeg_eq hid fun p hp =>
            (htyped p (mem_of_mem_parts hleg hp)).workable
        -- a leg of n parts comes out as one span and is told of by the number n
        have hcount := sum_partCounts_repairLog found.traceId none (legs ordered)
        rw [flatMap_parts_legs, hperm.length_eq, ← length_mendAll found.traceId none] at hcount
        refine ⟨fun n hn => two_le_of_mem_partCounts hn, hcount, first, ordered, found, _, rfl, hsort,
          hscan, hfolded, ?_, copies_repairLog found.traceId none (legs ordered)⟩
        rw [length_mendAll, List.length_map]

theorem merge_accounted_callSpans : (∀ s ∈ callSpans, s.WellTyped) ∧
    ∃ m log, (merge Sink.failing callSpans).run.run .empty =
        (.ok m, Delivery.empty.offerAll Sink.failing log) ∧
      (m = .unchanged → log = []) ∧ ∀ r, m = .repaired r →
        (∀ n ∈ log.filterMap Diagnostic.partCount?, 2 ≤ n) ∧
        ((log.filterMap Diagnostic.partCount?).map (· - 1)).sum + r.length = callSpans.length ∧
        ∃ first ordered found folded, callSpans.head? = some first ∧
          Span.cleanupSort callSpans = .ok ordered ∧ scan first.traceId ordered = .ok found ∧
          (legs ordered).mapM (combineLeg found.traceId) = .ok folded ∧ folded.length = r.length ∧
          log.filter Diagnostic.tellsCopy =
            ((folded.zip r).filter fun q => gainsParent q.1 q.2).map fun q =>
              copiedReport found.traceId q.2.id :=
  ⟨wellTyped_callSpans, merge_accounted Sink.failing .empty wellTyped_callSpans⟩

end Trace

end SpanForest
