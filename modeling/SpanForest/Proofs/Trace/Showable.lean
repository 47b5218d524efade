import SpanForest.Proofs.Span.Joined
import SpanForest.Proofs.Tree.Drawn
import SpanForest.Trace.Assembly

/-!
Trees of spans that can be drawn. A line is made of texts, so a span whose id and service name are
texts has a line exactly if its name is one too, and a tree is drawn exactly if each of its spans
has a line.
-/

namespace SpanForest

namespace Drawing

theorem exists_joinFrom_iff {position : Nat} {parts : List Value} :
    (∃ shown, joinFrom position parts = .ok shown) ↔ ∀ v ∈ parts, ∃ t, v = .string t := by
  induction parts generalizing position with
  | nil => exact iff_of_true ⟨[], rfl⟩ (List.forall_mem_nil _)
  | cons v rest ih =>
      rw [List.forall_mem_cons]
      cases v with
      | string t =>
          have hrest := @ih (position + 1)
          rw [joinFrom, and_iff_right ⟨t, rfl⟩, ← hrest]
          cases joinFrom (position + 1) rest with
          | error e => simp
          | ok shown => simp
      | _ => simp [joinFrom]

theorem exists_lines_iff {α : Type} {describe : α → Except Fault Text} {indent : Text}
    {places : List (α × Nat)} : (∃ text, lines describe indent places = .ok text) ↔
      ∀ place ∈ places, ∃ shown, describe place.1 = .ok shown := by
  induction places with
  | nil => exact iff_of_true ⟨[], rfl⟩ (List.forall_mem_nil _)
  | cons place rest ih =>
      obtain ⟨value, depth⟩ := place
      rw [List.forall_mem_cons, ← ih, lines]
      cases describe value with
      | error e => simp
      | ok shown => cases lines describe indent rest <;> simp

end Drawing

namespace Span

/-- The name is a text, if it is set. -/
def NameShown (s : Span) : Prop := s.name.isSet = true → ∃ t, s.name = .string t

theorem Workable.exists_describe_iff {s : Span} (h : s.Workable) :
    (∃ shown, Drawing.describe (some s) = .ok shown) ↔ s.NameShown := by
  have hjoin : (∃ shown, Drawing.describe (some s) = .ok shown) ↔
      ∃ shown, Drawing.joinFrom 0 (Drawing.spanParts s) = .ok shown := by
    rw [Drawing.describe]
    cases Drawing.joinFrom 0 (Drawing.spanParts s) <;> simp
  rw [hjoin, Drawing.exists_joinFrom_iff, Drawing.forall_spanParts_iff]
  exact ⟨fun hparts => hparts.2.2, fun hname => ⟨h.id, h.serviceName.exists_string, hname⟩⟩

end Span

namespace Trace.Assembled

/-- Every span of the tree has a name that is a text, or none. -/
def NamesShown (t : Assembled) : Prop :=
  ∀ n ∈ t.graph.traverseTree t.root, ∀ s, t.graph.value n = some s → s.NameShown

theorem exists_draw_iff {t : Assembled} (hlinked : t.graph.WellLinked t.root)
    (hworkable : ∀ n s, t.graph.value n = some s → s.Workable) (indent : Text) :
    (∃ text, t.draw indent = .ok text) ↔ t.NamesShown := by
  have hvalue (n : NodeId) : (∃ shown, Drawing.describe (t.graph.value n) = .ok shown) ↔
      ∀ s, t.graph.value n = some s → s.NameShown := by
    cases hn : t.graph.value n with
    | none => exact iff_of_true ⟨_, Drawing.describe_none⟩ (by simp)
    | some s => simp [(hworkable n s hn).exists_describe_iff]
  obtain ⟨tree, houtline⟩ := hlinked.outline_isSome
  rw [draw, outline, houtline]
  dsimp only
  rw [Drawing.drawSpans, Drawing.draw_outline Drawing.describe indent hlinked houtline,
    Drawing.exists_lines_iff, NamesShown, List.forall_mem_map]
  simp only [← hlinked.descend_perm.mem_iff, List.forall_mem_map, hvalue]

end Trace.Assembled

end SpanForest
