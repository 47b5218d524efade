import SpanForest.Proofs.Span.CleanupKey
import SpanForest.Proofs.Tree.Calls
import SpanForest.Proofs.Tree.Image
import SpanForest.Trace.Assembly

/-!
Registering spans whose ids are strings and of which any two can be combined. Assembling them is
building a tree over strings, which never fails, and its nodes hold what the spans are joined to. Not
covered: spans that cannot be combined.
-/

namespace SpanForest

namespace Value

/-- The text in a field that has one. -/
def string? : Value → Option Text
  | .string s => some s
  | _ => none

theorem string?_eq_some {v : Value} {s : Text} : v.string? = some s ↔ v = .string s := by
  cases v <;> simp [string?]

theorem key?_eq {v : Value} (h : v.IsOptionalString) :
    v.key? = v.string?.map fun s => ⟨.string s⟩ := by
  cases h <;> rfl

end Value

namespace Trace

structure Joinable (S : Type) where
  span : S → Span
  joined : S → S → S
  id : ∀ s, ∃ i, (span s).id = .string i
  parentId : ∀ s, (span s).parentId.IsOptionalString
  combine : ∀ s t, (span s).combine (span t) = .ok (span (joined s t))

def stringKey (s : Text) : ValueKey := ⟨.string s⟩

theorem run_assemble_of_ok {sink : Sink} {spans : List Span} {history : Delivery} {root : NodeId}
    {after : Progress ValueKey Span}
    (h : (assembleSpans sink spans).run.run ⟨{}, history⟩ = (.ok root, after)) :
    (assemble sink spans).run.run history = (.ok ⟨after.builder.graph, root⟩, after.delivery) := by
  show (((assembleSpans sink spans).run.run ⟨{}, history⟩).1.map fun root =>
    Assembled.mk ((assembleSpans sink spans).run.run ⟨{}, history⟩).2.builder.graph root,
      ((assembleSpans sink spans).run.run ⟨{}, history⟩).2.delivery) = _
  rw [h]
  rfl

namespace Joinable

variable {S : Type} (j : Joinable S)

def call (s : S) : Call Text S :=
  ⟨(j.span s).parentId.string?, some (j.span s).id.textOrEmpty, some (j.span s).isShared, some s⟩

theorem shared_call (s : S) : ((j.call s).shared == some true) = (j.span s).isShared := by
  rw [call, Option.some_beq_some, beq_true]

variable (sink : Sink) (traceId : Value)

/-- The policy of a trace whose ids are strings. -/
def policy : Policy Text S where
  traceId := traceId
  merge := fun s t => .ok (some (j.joined s t))
  sink := sink
  label := .string
  quoteValue := fun s => (j.span s).quoted

theorem mergesBy_policy : (j.policy sink traceId).MergesBy j.joined :=
  ⟨fun _ => rfl, fun _ _ => rfl⟩

theorem image_policy : (j.policy sink traceId).Image stringKey j.span (Trace.policy sink traceId) where
  traceId := rfl
  sink := rfl
  label _ := rfl
  quoteValue _ := rfl
  checkKey i := Value.checkKey_string i
  merge s t := by
    have hcombine := j.combine s t
    simp only [Trace.policy, hcombine]
    rfl

theorem run_addSpan (s : S) (p : Progress Text S) :
    (addSpan (Trace.policy sink traceId) (j.span s)).run.run (p.map stringKey j.span) =
      (.ok (), (((j.call s).make (j.policy sink traceId)).run.run p).2.map stringKey j.span) := by
  obtain ⟨answer, after, hmake⟩ := (j.call s).run_make_ok (j.mergesBy_policy sink traceId) rfl rfl p
  have hcall : (Builder.add (j.policy sink traceId) (j.span s).parentId.string?
      (some (j.span s).id.textOrEmpty) (j.span s).isShared (some s)).run.run p =
        (.ok answer, after) := by
    rw [← hmake, Call.make, j.shared_call]
    rfl
  have hparentId : (j.span s).parentId.key? = (j.span s).parentId.string?.map stringKey :=
    Value.key?_eq (j.parentId s)
  have hid : (j.span s).id.key? = some (stringKey (j.span s).id.textOrEmpty) := by
    obtain ⟨i, hi⟩ := j.id s
    rw [hi]
    rfl
  have hadd : (Builder.addValue (Trace.policy sink traceId) (j.span s).parentId (j.span s).id
      (j.span s).isShared (some (j.span s))).run.run (p.map stringKey j.span) =
        (.ok answer, after.map stringKey j.span) := by
    have himage := Builder.images_add (j.image_policy sink traceId) ValueKey.beq_string
      (j.span s).parentId.string? (some (j.span s).id.textOrEmpty) (j.span s).isShared (some s) p
    rw [hcall] at himage
    rw [Builder.addValue, hparentId, hid]
    exact himage
  rw [hmake]
  exact run_bind_ok hadd

theorem run_addSpans (spans : List S) (p : Progress Text S) :
    (addSpans (Trace.policy sink traceId) (spans.map j.span)).run.run (p.map stringKey j.span) =
      (.ok (), (Call.makeAll (j.policy sink traceId) (spans.map j.call) p).map stringKey j.span) := by
  induction spans generalizing p with
  | nil => rfl
  | cons s spans ih =>
      rw [List.map_cons, addSpans, run_bind_ok (j.run_addSpan sink traceId s p), ih, List.map_cons,
        Call.makeAll_cons]

theorem run_assemble (spans : List S) (history : Delivery) :
    ∃ root b d, Builder.Ready j.joined (Call.accepted (spans.map j.call)) b root ∧
      (assemble sink (spans.map j.span)).run.run history =
        (.ok ⟨(b.graph.attachAll (b.links root)).map j.span, root⟩, d) := by
  have total := j.mergesBy_policy sink (firstTraceId (spans.map j.span))
  have image := j.image_policy sink (firstTraceId (spans.map j.span))
  obtain ⟨root, b, d, hready, hbuild⟩ := Call.run_build_makeAll total (spans.map j.call) history
  have hadd := j.run_addSpans sink (firstTraceId (spans.map j.span)) spans ⟨{}, history⟩
  have hstart : (⟨{}, history⟩ : Progress Text S).map stringKey j.span = ⟨{}, history⟩ := by
    rw [Progress.map, Builder.map_empty]
  rw [hstart] at hadd
  have hrun : (assembleSpans sink (spans.map j.span)).run.run ⟨{}, history⟩ = (.ok root,
      Progress.map stringKey j.span ⟨{ b with graph := b.graph.attachAll (b.links root) }, d⟩) := by
    rw [assembleSpans, run_bind_ok hadd, Builder.images_build image ValueKey.beq_string _, hbuild]
    rfl
  exact ⟨root, b, d, hready, run_assemble_of_ok hrun⟩

end Joinable

end Trace

end SpanForest
