import SpanForest.Proofs.Tree.Unheeded
import SpanForest.Trace.Assembly

/-!
Repairing a trace and building its tree do not heed the sink. Whatever the fields of the spans hold, two
sinks see the same spans or the same tree come out, or the same fault, and are offered the same
diagnostics in the same order; the notes on failures are those of the sink's own failed calls. Not
covered: what is offered.
-/

namespace SpanForest.Trace

open Unheeded

theorem unheeded_reportIf (c : Prop) [Decidable c] (d : Diagnostic) {α : Type}
    {next : Sink → Reporting α} (h : UnheededReporting next) : UnheededReporting fun sink => (do
      if c then report sink d
      next sink) := by
  by_cases hc : c
  · simp only [if_pos hc]
    exact bind (of_report d) fun _ => h
  · simp only [if_neg hc]
    exact h

theorem unheeded_repairLeg (traceId : Value) (previous : Option Span) (leg : Leg) :
    UnheededReporting fun sink => repairLeg sink traceId previous leg := by
  refine bind (of_lift (combineLeg traceId leg)) fun s => ?_
  cases previous with
  | none => exact unheeded_reportIf (1 < leg.parts.length) _ (of_pure s)
  | some p =>
      refine unheeded_reportIf (1 < leg.parts.length) _ ?_
      cases missesParent p s with
      | true => exact bind (of_report _) fun _ => of_pure _
      | false => exact of_pure s

theorem unheeded_repairLegs (traceId : Value) (previous : Option Span) (legs : List Leg) :
    UnheededReporting fun sink => repairLegs sink traceId previous legs := by
  induction legs generalizing previous with
  | nil => exact of_pure []
  | cons leg rest ih =>
      exact bind (unheeded_repairLeg traceId previous leg) fun s =>
        bind (ih (some s)) fun others => of_pure (s :: others)

theorem unheeded_merge (spans : List Span) : UnheededReporting fun sink => merge sink spans := by
  match spans with
  | [] => exact of_pure Merged.unchanged
  | [_] => exact of_pure Merged.unchanged
  | first :: second :: rest =>
      refine bind (of_lift (Span.cleanupSort (first :: second :: rest))) fun ordered =>
        bind (of_lift (scan first.traceId ordered)) fun found => ?_
      cases found.needed with
      | true =>
          exact bind (unheeded_repairLegs found.traceId none (legs ordered)) fun repaired =>
            of_pure (Merged.repaired repaired)
      | false => exact of_pure Merged.unchanged

theorem unheeded_addSpans (p : Policy ValueKey Span) (spans : List Span) :
    UnheededBuilding fun sink => addSpans (p.telling sink) spans := by
  induction spans with
  | nil => exact of_pure ()
  | cons s rest ih =>
      have hadd : UnheededBuilding fun sink => addSpan (p.telling sink) s :=
        bind (Builder.unheeded_add p s.parentId.key? s.id.key? s.isShared (some s)) fun _ => of_pure ()
      exact bind hadd fun _ => ih

theorem unheeded_assemble (spans : List Span) :
    UnheededReporting fun sink => assemble sink spans := by
  have hassemble : UnheededBuilding fun sink => assembleSpans sink spans :=
    bind (unheeded_addSpans (policy Sink.quiet (firstTraceId spans)) spans) fun _ =>
      Builder.unheeded_build (policy Sink.quiet (firstTraceId spans))
  intro _
  obtain ⟨outcome, b, ds, hrun⟩ := hassemble {}
  refine ⟨outcome.map fun root => Assembled.mk b.graph root, (), ds, fun sink history => ?_⟩
  have hassembled : (assemble sink spans).run.run history =
      (((assembleSpans sink spans).run.run ⟨{}, history⟩).1.map fun root =>
          Assembled.mk ((assembleSpans sink spans).run.run ⟨{}, history⟩).2.builder.graph root,
        ((assembleSpans sink spans).run.run ⟨{}, history⟩).2.delivery) := rfl
  rw [hassembled, hrun]

theorem unheeded_buildTree (repairFirst : Bool) (spans : List Span) :
    UnheededReporting fun sink => buildTree sink repairFirst spans := by
  cases repairFirst with
  | false => exact unheeded_assemble spans
  | true => exact bind (unheeded_merge spans) fun merged => unheeded_assemble (merged.spans spans)

/-- Two sinks see the same tree or fault, and the same spans or fault, and are offered the same; each has
a note for each of its own failed calls, in the order of the calls. -/
theorem buildTree_merge_unheeded (sink sink' : Sink) (repairFirst : Bool) (spans : List Span) :
    (∃ outcome offered,
      (buildTree sink repairFirst spans).run.run .empty =
        (outcome, ⟨offered, sink.warnings offered⟩) ∧
      (buildTree sink' repairFirst spans).run.run .empty =
        (outcome, ⟨offered, sink'.warnings offered⟩)) ∧
    ∃ outcome offered,
      (merge sink spans).run.run .empty = (outcome, ⟨offered, sink.warnings offered⟩) ∧
      (merge sink' spans).run.run .empty = (outcome, ⟨offered, sink'.warnings offered⟩) := by
  obtain ⟨tree, told, hbuild⟩ := (unheeded_buildTree repairFirst spans).run_empty
  obtain ⟨merged, offered, hmerge⟩ := (unheeded_merge spans).run_empty
  exact ⟨⟨tree, told, hbuild sink, hbuild sink'⟩, merged, offered, hmerge sink, hmerge sink'⟩

end SpanForest.Trace
