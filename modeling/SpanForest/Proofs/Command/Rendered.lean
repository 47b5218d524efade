import SpanForest.Command.Run
import SpanForest.Proofs.Trace.OneLine
import SpanForest.Proofs.Trace.Unheeded

/-!
What a run shows when it shows all traces: trace by trace the drawing of its tree, one piece a node, or
one array of the spans as they were repaired. The spans of a source are shown so exactly if the work
before any output is written comes to that text; no sink that is told of repairs has a part in it.
-/

namespace SpanForest.Command

def Draws (noMerge : Bool) (spans : List Span) (text : Text) : Prop :=
  ∃ t tree, (∀ sink history, ∃ after,
      (Trace.buildTree sink (!noMerge) spans).run.run history = (.ok t, after)) ∧
    t.outline = some tree ∧ (∀ s depth, (some s, depth) ∈ tree.preorder 0 → s.Titled) ∧
    text = (tree.preorder 0).flatMap (Drawing.piece Drawing.line Drawing.defaultIndent)

def Repairs : Bool → List Span → List Span → Prop
  | true, spans, out => out = spans
  | false, spans, out => ∃ m, (∀ sink history, ∃ after,
      (Trace.merge sink spans).run.run history = (.ok m, after)) ∧ out = m.spans spans

/-- All traces, one after the other, in one of the two formats. -/
def Renders (noMerge : Bool) (traces : List (List Span)) (text : Text) : Format → Prop
  | .tree => ∃ drawings, List.Forall₂ (Draws noMerge) traces drawings ∧ text = drawings.flatten
  | .json => ∃ lists, List.Forall₂ (Repairs noMerge) traces lists ∧
      text = Text.ofChars (Span.writeList lists.flatten ++ ['\n'])

section

variable {α : Type} {work : List Span → Reporting (List α)} {R : List Span → List α → Prop}
  {traces : List (List Span)}

theorem run_collect_cons {spans : List Span} {here others : List α} {history between after : Delivery}
    (hhere : (work spans).run.run history = (.ok here, between))
    (hothers : (collect work traces).run.run between = (.ok others, after)) :
    (collect work (spans :: traces)).run.run history = (.ok (here ++ others), after) := by
  rw [collect, run_bind_ok hhere, run_bind_ok hothers]
  rfl

theorem run_collect {lists : List (List α)} (h : List.Forall₂ R traces lists)
    (hwork : ∀ spans here, R spans here → ∀ history, ∃ after,
      (work spans).run.run history = (.ok here, after)) (history : Delivery) :
    ∃ after, (collect work traces).run.run history = (.ok lists.flatten, after) := by
  induction h generalizing history with
  | nil => exact ⟨history, rfl⟩
  | cons hspans _ ih =>
      obtain ⟨between, hhere⟩ := hwork _ _ hspans history
      obtain ⟨after, hothers⟩ := ih between
      exact ⟨after, run_collect_cons hhere hothers⟩

theorem exists_of_run_collect {history after : Delivery} {out : List α}
    (hwork : ∀ spans ∈ traces, ∀ here history after,
      (work spans).run.run history = (.ok here, after) → R spans here)
    (h : (collect work traces).run.run history = (.ok out, after)) :
    ∃ lists, List.Forall₂ R traces lists ∧ out = lists.flatten := by
  induction traces generalizing out history after with
  | nil =>
      cases h
      exact ⟨[], .nil, rfl⟩
  | cons spans rest ih =>
      obtain ⟨hspans, hrest⟩ := List.forall_mem_cons.1 hwork
      obtain ⟨here, between, hhere, h⟩ := exists_of_run_bind_ok h
      obtain ⟨others, _, hothers, h⟩ := exists_of_run_bind_ok h
      obtain ⟨lists, hlists, rfl⟩ := ih hrest hothers
      cases h
      exact ⟨here :: lists, .cons (hspans here history between hhere) hlists, rfl⟩

end

section

variable {sink : Sink} {history : Delivery} {noMerge : Bool} {spans : List Span}

theorem run_traceOutput {text : Text} (h : Draws noMerge spans text) (sink : Sink)
    (history : Delivery) :
    ∃ after, (traceOutput sink noMerge spans).run.run history = (.ok text, after) := by
  obtain ⟨t, tree, hrun, houtline, titled, rfl⟩ := h
  obtain ⟨after, hbuilt⟩ := hrun sink history
  have hdraw : t.draw Drawing.defaultIndent =
      .ok ((tree.preorder 0).flatMap (Drawing.piece Drawing.line Drawing.defaultIndent)) := by
    rw [Trace.Assembled.draw, houtline]
    exact (Drawing.drawSpans_eq_pieces Drawing.defaultIndent titled).1
  refine ⟨after, ?_⟩
  rw [traceOutput, run_bind_ok hbuilt]
  exact run_lift hdraw after

theorem draws_of_traceOutput (regular : ∀ s ∈ spans, s.Regular) {text : Text} {after : Delivery}
    (h : (traceOutput sink noMerge spans).run.run history = (.ok text, after)) :
    Draws noMerge spans text := by
  obtain ⟨t, between, hbuilt, hdrawn⟩ := exists_of_run_bind_ok h
  -- a name that a reader left is none or set, so one that can be drawn is none or a text
  have closed : Trace.Closed fun s => s.Workable ∧ (s.name = .null ∨ s.name.isSet = true) :=
    Trace.closed_workable.and Trace.takenOver_name fun name => name = .null ∨ name.isSet = true
  have hread : ∀ s ∈ spans, s.Workable ∧ (s.name = .null ∨ s.name.isSet = true) := fun s hs =>
    ⟨(regular s hs).workable, Value.isSet_of_ifSet_eq (regular s hs).name⟩
  obtain ⟨hlinked, hvalues⟩ := closed.of_run_buildTree hread hbuilt
  obtain ⟨tree, houtline⟩ := hlinked.outline_isSome
  have hdraw : Drawing.drawSpans Drawing.defaultIndent tree = .ok text := by
    have hlift : t.draw Drawing.defaultIndent = .ok text := congrArg Prod.fst hdrawn
    rwa [Trace.Assembled.draw, Trace.Assembled.outline, houtline] at hlift
  have hdescribed : ∀ place ∈ tree.preorder 0, ∃ shown, Drawing.describe place.1 = .ok shown := by
    rw [Drawing.drawSpans, Drawing.draw_eq_preorder] at hdraw
    exact Drawing.exists_lines_iff.1 ⟨text, hdraw⟩
  have titled : ∀ s depth, (some s, depth) ∈ tree.preorder 0 → s.Titled := by
    intro s depth hplace
    obtain ⟨n, hn⟩ := Graph.value_of_mem_preorder houtline hplace
    obtain ⟨hworkable, hname⟩ := hvalues n s hn
    refine ⟨hworkable.id, hworkable.serviceName, ?_⟩
    rcases hname with hnull | hset
    · exact hnull ▸ .absent
    · obtain ⟨name, htext⟩ := hworkable.exists_describe_iff.1 (hdescribed _ hplace) hset
      exact htext ▸ .present name
  refine ⟨t, tree, (Trace.unheeded_buildTree (!noMerge) spans).run_of_run hbuilt, houtline, titled, ?_⟩
  rw [(Drawing.drawSpans_eq_pieces Drawing.defaultIndent titled).1] at hdraw
  exact (Except.ok.inj hdraw).symm

theorem run_repairedTrace_of_repairs {out : List Span} (h : Repairs noMerge spans out) (sink : Sink)
    (history : Delivery) :
    ∃ after, (repairedTrace sink noMerge spans).run.run history = (.ok out, after) := by
  cases noMerge with
  | true => exact ⟨history, h ▸ rfl⟩
  | false =>
      obtain ⟨m, hrun, rfl⟩ := h
      obtain ⟨after, hmerge⟩ := hrun sink history
      exact ⟨after, run_map_ok _ hmerge⟩

theorem repairs_of_repairedTrace {out : List Span} {after : Delivery}
    (h : (repairedTrace sink noMerge spans).run.run history = (.ok out, after)) :
    Repairs noMerge spans out := by
  cases noMerge with
  | true => exact (Except.ok.inj (Prod.mk.inj h).1).symm
  | false =>
      obtain ⟨m, between, hmerge, hout⟩ := exists_of_run_bind_ok h
      refine ⟨m, (Trace.unheeded_merge spans).run_of_run hmerge, ?_⟩
      exact (Except.ok.inj (Prod.mk.inj hout).1).symm

end

variable {noMerge : Bool} {traces : List (List Span)}

theorem renders_iff_output (sink : Sink) (history : Delivery) (request : Request)
    (regular : ∀ spans ∈ traces, ∀ s ∈ spans, s.Regular) (text : Text) :
    Renders request.noMerge traces text request.format ↔
      ∃ after, (output sink request traces).run.run history = (.ok text, after) := by
  obtain ⟨input, target, format, noMerge, verbose⟩ := request
  cases format with
  | tree =>
      constructor
      · rintro ⟨drawings, hdrawings, rfl⟩
        exact run_collect hdrawings (fun _ _ hdraws => run_traceOutput hdraws sink) history
      · rintro ⟨after, h⟩
        exact exists_of_run_collect
          (fun spans hspans _ _ _ => draws_of_traceOutput (regular spans hspans)) h
  | json =>
      constructor
      · rintro ⟨lists, hlists, rfl⟩
        obtain ⟨after, hmerged⟩ :=
          run_collect hlists (fun _ _ hrepairs => run_repairedTrace_of_repairs hrepairs sink) history
        exact ⟨after, run_bind_ok hmerged⟩
      · rintro ⟨after, h⟩
        obtain ⟨spans, _, hspans, h⟩ := exists_of_run_bind_ok h
        obtain ⟨lists, hlists, rfl⟩ :=
          exists_of_run_collect (fun _ _ _ _ _ => repairs_of_repairedTrace) hspans
        cases h
        exact ⟨lists, hlists, rfl⟩

theorem produce_outcome {request : Request} {source : TextSource} {spans : List Span}
    (hread : (readSource source).outcome = .ok spans) (text : Text) :
    (∃ r, (produce request source).outcome = .ok r ∧ r.text = text) ↔
      ∃ after, (output Sink.quiet request ((Trace.groups spans).map Prod.snd)).run.run .empty =
        (.ok text, after) := by
  rw [produce, hread]
  dsimp only
  cases (output Sink.quiet request ((Trace.groups spans).map Prod.snd)).run.run .empty with
  | mk outcome after =>
      cases outcome with
      | error fault => exact ⟨nofun, nofun⟩
      | ok shown =>
          constructor
          · rintro ⟨r, hr, rfl⟩
            obtain rfl := Except.ok.inj hr
            exact ⟨after, rfl⟩
          · rintro ⟨_, h⟩
            cases h
            exact ⟨_, rfl, rfl⟩

theorem renders_iff_produce (request : Request) (source : TextSource) (text : Text) :
    (∃ spans, (readSource source).outcome = .ok spans ∧
        Renders request.noMerge ((Trace.groups spans).map Prod.snd) text request.format) ↔
      ∃ r, (produce request source).outcome = .ok r ∧ r.text = text := by
  cases hread : (readSource source).outcome with
  | error fault =>
      rw [produce, hread]
      simp
  | ok spans =>
      have regular : ∀ group ∈ (Trace.groups spans).map Prod.snd, ∀ s ∈ group, s.Regular := by
        refine List.forall_mem_map.2 fun group hgroup s hs => ?_
        exact regular_of_readLines hread s (Trace.mem_of_mem_groups hgroup hs)
      rw [produce_outcome hread, ← renders_iff_output Sink.quiet .empty request regular]
      simp

end SpanForest.Command
