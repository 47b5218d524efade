import SpanForest.Proofs.Text.Lines
import SpanForest.Proofs.Trace.Processed

/-!
Line feeds in the drawing of a tree. Every node's line ends with one, and the id, the service and
the name of a span are drawn as they are, so the drawing has a line for each node exactly if these
hold no line feed.
-/

namespace SpanForest

namespace Drawing

section

variable {α : Type} {line : α → Text} {indent : Text} (hindent : .char '\n' ∉ indent)
include hindent

theorem count_piece (place : α × Nat) :
    (piece line indent place).count (.char '\n') = (line place.1).count (.char '\n') + 1 := by
  have hblank : .char '\n' ∉ (List.replicate place.2 indent).flatten := by
    intro h
    obtain ⟨cs, hcs, hfeed⟩ := List.mem_flatten.1 h
    exact hindent (List.eq_of_mem_replicate hcs ▸ hfeed)
  rw [piece, List.count_append, List.count_append, List.count_eq_zero_of_not_mem hblank, Nat.zero_add]
  rfl

theorem count_pieces (places : List (α × Nat)) :
    (places.flatMap (piece line indent)).count (.char '\n') =
      (places.map fun place => (line place.1).count (.char '\n')).sum + places.length := by
  induction places with
  | nil => rfl
  | cons place places ih =>
      rw [List.flatMap_cons, List.count_append, count_piece hindent, ih, List.map_cons, List.sum_cons,
        List.length_cons]
      omega

theorem count_pieces_eq_length_iff (places : List (α × Nat)) :
    (places.flatMap (piece line indent)).count (.char '\n') = places.length ↔
      ∀ place ∈ places, .char '\n' ∉ line place.1 := by
  rw [count_pieces hindent, Nat.add_eq_right, List.sum_eq_zero_iff, List.forall_mem_map]
  exact forall₂_congr fun _ _ => List.count_eq_zero

end

end Drawing

def Value.OneLine (v : Value) : Prop := CodePoint.char '\n' ∉ v.textOrEmpty

/-- No line feed is in what the line of a span shows. -/
@[mk_iff]
structure Span.OneLine (s : Span) : Prop where
  id : s.id.OneLine
  serviceName : s.serviceName.OneLine
  name : s.name.OneLine

theorem Drawing.notMem_line_iff {value : Option Span} :
    .char '\n' ∉ line value ↔ ∀ s, value = some s → s.OneLine := by
  cases value with
  | none => exact iff_of_true (by decide) nofun
  | some s =>
      have hshown (v : Text) : (∀ w ∈ [v].filter (· ≠ []), .char '\n' ∉ w) ↔ .char '\n' ∉ v := by
        by_cases hv : v = [] <;> simp [hv]
      have hmark : .char '\n' ∉ Text.ofString "[shared]" := by decide
      rw [line, Text.notMem_intercalate_iff (by decide), words_eq]
      simp only [List.forall_mem_append, List.forall_mem_cons, hshown, List.mem_ite_nil_right,
        List.mem_singleton, and_imp, forall_eq_apply_imp_iff]
      constructor
      · rintro ⟨⟨hid, -⟩, hserviceName, hname⟩ t ht
        obtain rfl := Option.some.inj ht
        exact ⟨hid, hserviceName, hname⟩
      · intro h
        obtain ⟨hid, hserviceName, hname⟩ := h s rfl
        exact ⟨⟨hid, fun _ => hmark⟩, hserviceName, hname⟩

namespace Trace

theorem Assembled.exists_draw_oneLine_iff {t : Assembled} (hlinked : t.graph.WellLinked t.root)
    (titled : ∀ n s, t.graph.value n = some s → s.Titled) {indent : Text}
    (hindent : .char '\n' ∉ indent) :
    ∃ text, t.draw indent = .ok text ∧
      (text.count (.char '\n') = (t.graph.traverseTree t.root).length ↔
        ∀ n ∈ t.graph.traverseTree t.root, ∀ s, t.graph.value n = some s → s.OneLine) := by
  obtain ⟨tree, houtline⟩ := hlinked.outline_isSome
  let places := (t.graph.descend t.graph.size [(t.root, 0)]).map fun place =>
    (t.graph.value place.1, place.2)
  have hlines : ∀ place ∈ places, Drawing.describe place.1 = .ok (Drawing.line place.1) :=
    List.forall_mem_map.2 fun place _ => Drawing.describe_eq_line (titled place.1)
  have hlength : places.length = (t.graph.traverseTree t.root).length := by
    rw [← hlinked.descend_perm.length_eq, List.length_map, List.length_map]
  refine ⟨places.flatMap (Drawing.piece Drawing.line indent), ?_, ?_⟩
  · rw [draw, outline, houtline]
    dsimp only
    rw [Drawing.drawSpans, Drawing.draw_outline Drawing.describe indent hlinked houtline,
      Drawing.lines_eq hlines]
  · rw [← hlength, Drawing.count_pieces_eq_length_iff hindent, List.forall_mem_map]
    simp only [← hlinked.descend_perm.mem_iff, List.forall_mem_map, Drawing.notMem_line_iff]

theorem closed_titled : Closed fun s => s.Workable ∧ s.name.IsOptionalString :=
  closed_workable.and takenOver_name Value.IsOptionalString

theorem closed_oneLine : Closed fun s => s.Workable ∧ s.OneLine := by
  simp only [Span.oneLine_iff, ← and_assoc]
  exact ((closed_workable.and takenOver_id Value.OneLine).and takenOver_serviceName
    Value.OneLine).and takenOver_name Value.OneLine

/-- Spans of a line whose names are texts are built to a tree if they can be put in order, and drawn,
with as many line feeds as the tree has nodes exactly if none is in an id, a service or a name that the
tree shows; for that it is enough that none is in those of the spans given. -/
theorem readLine_onePerLine_iff {line : List Char} {spans trace : List Span}
    (h : Span.readLine line = .ok spans) (htrace : ∀ s ∈ trace, s ∈ spans)
    (names : ∀ s ∈ trace, s.name.IsOptionalString) (sink : Sink) (history : Delivery)
    (repairFirst : Bool) {indent : Text} (hindent : .char '\n' ∉ indent) :
    ((∃ t after, (buildTree sink repairFirst trace).run.run history = (.ok t, after)) ↔
        (repairFirst = true → Orderable trace)) ∧
      ∀ t after, (buildTree sink repairFirst trace).run.run history = (.ok t, after) →
        ∃ text, t.draw indent = .ok text ∧
          (text.count (.char '\n') = (t.graph.traverseTree t.root).length ↔
            ∀ n ∈ t.graph.traverseTree t.root, ∀ s, t.graph.value n = some s → s.OneLine) ∧
          ((∀ s ∈ trace, s.OneLine) → text.count (.char '\n') = (t.graph.traverseTree t.root).length) := by
  have workable : ∀ s ∈ trace, s.Workable := fun s hs =>
    (Span.regular_of_mem_readLine h (htrace s hs)).workable
  have hnamed : ∀ s ∈ trace, s.Workable ∧ s.name.IsOptionalString := fun s hs =>
    ⟨workable s hs, names s hs⟩
  refine ⟨⟨?_, fun orderable => ?_⟩, fun t after hrun => ?_⟩
  · rintro ⟨t, after, hrun⟩
    exact orderable_of_run_buildTree hrun
  · obtain ⟨t, after, hrun, -⟩ :=
      run_buildTree_of_closed closed_titled sink history hnamed repairFirst orderable
    exact ⟨t, after, hrun⟩
  · obtain ⟨hlinked, hvalues⟩ := closed_titled.of_run_buildTree hnamed hrun
    have titled : ∀ n s, t.graph.value n = some s → s.Titled := fun n s hs =>
      ⟨(hvalues n s hs).1.id, (hvalues n s hs).1.serviceName, (hvalues n s hs).2⟩
    obtain ⟨text, hdraw, hcount⟩ := Assembled.exists_draw_oneLine_iff hlinked titled hindent
    refine ⟨text, hdraw, hcount, fun oneLine => hcount.2 fun n _ s hs => ?_⟩
    have hkept := closed_oneLine.of_run_buildTree (fun s hs => ⟨workable s hs, oneLine s hs⟩) hrun
    exact (hkept.2 n s hs).2

theorem oneLine_numberSpans : ∀ s ∈ numberSpans, s.OneLine := by
  have hlines : ∀ s ∈ numberSpans, ∀ v ∈ [s.id, s.serviceName, s.name], v.OneLine := by
    simp only [numberSpans, List.forall_mem_cons, Value.OneLine]
    decide +kernel
  intro s hs
  exact ⟨hlines s hs _ (by simp), hlines s hs _ (by simp), hlines s hs _ (by simp)⟩

theorem readLine_onePerLine_iff_numberLine : Span.readLine numberLine = .ok numberSpans ∧
    (∀ s ∈ numberSpans, s.name.IsOptionalString) ∧ (∀ s ∈ numberSpans, s.OneLine) ∧
    ∃ t after text, (buildTree Sink.quiet true numberSpans).run.run .empty = (.ok t, after) ∧
      t.draw Drawing.defaultIndent = .ok text ∧
      text.count (.char '\n') = (t.graph.traverseTree t.root).length := by
  have names : ∀ s ∈ numberSpans, s.name.IsOptionalString :=
    List.forall_mem_cons.2 ⟨.present "get", List.forall_mem_cons.2 ⟨.absent, nofun⟩⟩
  have orderable : Orderable numberSpans := by
    intro _
    cases hsort : Span.cleanupSort numberSpans with
    | ok ordered => exact ⟨ordered, rfl⟩
    | error e =>
        have hsome : (Span.cleanupSort numberSpans).toOption.isSome = true := by decide +kernel
        rw [hsort] at hsome
        cases hsome
  obtain ⟨hbuilt, hdrawn⟩ := readLine_onePerLine_iff readLine_numberLine (fun _ hs => hs) names
    Sink.quiet .empty true (show .char '\n' ∉ Drawing.defaultIndent by decide)
  obtain ⟨t, after, hrun⟩ := hbuilt.2 fun _ => orderable
  obtain ⟨text, htext, -, hcount⟩ := hdrawn t after hrun
  exact ⟨readLine_numberLine, names, oneLine_numberSpans, t, after, text, hrun, htext,
    hcount oneLine_numberSpans⟩

/-- A line of one span, whose name is two lines of a drawing. -/
def forgedLine : List Char :=
  "[\x7b\"traceId\":\"1\",\"id\":\"1\",\"name\":\"get\\n  2 forged\"\x7d]".toList

def forgedName : Span :=
  { traceId := .string "0000000000000001", id := .string "0000000000000001",
    name := .string "get\n  2 forged" }

/-- The one node of the tree is drawn as a node and one below it. -/
theorem not_onePerLine_forgedName : Span.readLine forgedLine = .ok [forgedName] ∧
    forgedName.name.IsOptionalString ∧
    ∃ t after, (buildTree Sink.quiet true [forgedName]).run.run .empty = (.ok t, after) ∧
      t.draw Drawing.defaultIndent = .ok (Text.ofString "0000000000000001 get\n  2 forged\n") ∧
      (Text.ofString "0000000000000001 get\n  2 forged\n").count (.char '\n') ≠
        (t.graph.traverseTree t.root).length := by
  have hrun : ((buildTree Sink.quiet true [forgedName]).run.run .empty).1 =
      .ok ⟨⟨#[⟨some forgedName, none, []⟩]⟩, 0⟩ := eq_ok_of_toOption (by decide +kernel)
  refine ⟨eq_ok_of_toOption (by decide +kernel), .present _, _, _, Prod.ext hrun rfl, ?_, ?_⟩
  · have houtline : Assembled.outline ⟨⟨#[⟨some forgedName, none, []⟩]⟩, 0⟩ =
        some (.node (some forgedName) []) := rfl
    rw [Assembled.draw, houtline]
    dsimp only
    rw [Drawing.drawSpans, Drawing.draw_eq_preorder]
    rfl
  · decide +kernel

end Trace

end SpanForest
