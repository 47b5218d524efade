import Mathlib.Data.List.Induction
import SpanForest.Diagnostic.Reporting
import SpanForest.Proofs.Running

/-!
Work that does not heed the sink it reports to. What it comes to and what it offers is the same for
all sinks, whatever they were offered before and on whichever calls they fail; a sink only adds the
notes on its own failures, one a failed call.
-/

namespace SpanForest

/-- The notes on a sink that is offered some diagnostics and was offered none before: one for each call
on which it fails, in the order of the calls. -/
def Sink.warnings (sink : Sink) (offered : List Diagnostic) : List SinkFailure :=
  (offered.zipIdx.filter fun call => sink.fails (offered.take call.2) call.1).map
    fun call => ⟨call.1.traceId⟩

theorem Sink.warnings_append_singleton (sink : Sink) (offered : List Diagnostic) (d : Diagnostic) :
    sink.warnings (offered ++ [d]) = sink.warnings offered ++
      if sink.fails offered d then [⟨d.traceId⟩] else [] := by
  -- whether an earlier call fails depends on the calls before it, and not on a later one
  have hearlier : offered.zipIdx.filter
      (fun call => sink.fails ((offered ++ [d]).take call.2) call.1) =
        offered.zipIdx.filter fun call => sink.fails (offered.take call.2) call.1 := by
    refine List.filter_congr fun call hcall => ?_
    have hle : call.2 ≤ offered.length := by
      obtain ⟨-, hlt, -⟩ := List.mem_zipIdx hcall
      omega
    rw [List.take_append_of_le_length hle]
  rw [warnings, List.zipIdx_append, List.filter_append, hearlier, List.map_append]
  refine congrArg _ ?_
  cases h : sink.fails offered d <;> simp [h]

namespace Delivery

def offerAll (sink : Sink) (ds : List Diagnostic) (history : Delivery) : Delivery :=
  ds.foldl (fun history d => history.offer sink d) history

theorem offerAll_append (sink : Sink) (ds es : List Diagnostic) (history : Delivery) :
    history.offerAll sink (ds ++ es) = (history.offerAll sink ds).offerAll sink es :=
  List.foldl_append

theorem offerAll_empty (sink : Sink) (ds : List Diagnostic) :
    Delivery.empty.offerAll sink ds = ⟨ds, sink.warnings ds⟩ := by
  induction ds using List.reverseRecOn with
  | nil => rfl
  | append_singleton ds d ih =>
      rw [offerAll_append, ih, Sink.warnings_append_singleton]
      show Delivery.offer sink d _ = _
      rw [offer]
      cases sink.fails ds d <;> simp

end Delivery

def Unheeded {σ τ α : Type} (join : σ → Delivery → τ) (work : Sink → ExceptT Fault (StateM τ) α) :
    Prop :=
  ∀ s, ∃ outcome s' ds, ∀ sink history,
    (work sink).run.run (join s history) = (outcome, join s' (history.offerAll sink ds))

abbrev UnheededReporting {α : Type} (work : Sink → Reporting α) : Prop :=
  Unheeded (fun (_ : Unit) history => history) work

namespace Unheeded

variable {σ τ α β : Type} {join : σ → Delivery → τ}

theorem of_pure (a : α) : Unheeded join fun _ => pure a :=
  fun s => ⟨.ok a, s, [], fun _ _ => rfl⟩

theorem of_throw (e : Fault) : Unheeded join fun _ => (throw e : ExceptT Fault (StateM τ) α) :=
  fun s => ⟨.error e, s, [], fun _ _ => rfl⟩

theorem of_lift (x : Except Fault α) :
    Unheeded join fun _ => (liftM x : ExceptT Fault (StateM τ) α) := by
  intro s
  cases x with
  | error e => exact ⟨.error e, s, [], fun _ _ => rfl⟩
  | ok a => exact ⟨.ok a, s, [], fun _ _ => rfl⟩

theorem bind {work : Sink → ExceptT Fault (StateM τ) α} {next : Sink → α → ExceptT Fault (StateM τ) β}
    (hwork : Unheeded join work) (hnext : ∀ a, Unheeded join fun sink => next sink a) :
    Unheeded join fun sink => work sink >>= next sink := by
  intro s
  obtain ⟨outcome, s', ds, hrun⟩ := hwork s
  cases outcome with
  | error e => exact ⟨.error e, s', ds, fun sink history => run_bind_error (hrun sink history)⟩
  | ok a =>
      obtain ⟨outcome, s'', es, hrest⟩ := hnext a s'
      refine ⟨outcome, s'', ds ++ es, fun sink history => ?_⟩
      rw [run_bind_ok (hrun sink history), hrest, Delivery.offerAll_append]

theorem of_report (d : Diagnostic) : UnheededReporting fun sink => report sink d :=
  fun _ => ⟨.ok (), (), [d], fun _ _ => rfl⟩

theorem run_of_run {work : Sink → Reporting α} (h : UnheededReporting work) {sink : Sink}
    {history after : Delivery} {a : α} (hrun : (work sink).run.run history = (.ok a, after))
    (sink' : Sink) (history' : Delivery) :
    ∃ after', (work sink').run.run history' = (.ok a, after') := by
  obtain ⟨outcome, _, ds, hall⟩ := h ()
  have houtcome : outcome = .ok a := congrArg Prod.fst ((hall sink history).symm.trans hrun)
  exact ⟨_, houtcome ▸ hall sink' history'⟩

theorem run_empty {work : Sink → Reporting α} (h : UnheededReporting work) :
    ∃ outcome offered, ∀ sink,
      (work sink).run.run .empty = (outcome, ⟨offered, sink.warnings offered⟩) := by
  obtain ⟨outcome, _, offered, hrun⟩ := h ()
  refine ⟨outcome, offered, fun sink => (hrun sink .empty).trans ?_⟩
  rw [Delivery.offerAll_empty]

end Unheeded

end SpanForest
