import SpanForest.Proofs.Diagnostic.Unheeded
import SpanForest.Proofs.Trace.Legs
import SpanForest.Proofs.Trace.Tidy

/-!
What a repair makes of legs, and what the sink is told of it, as functions: spans with the ids and
annotations of the declared kinds are repaired without a fault. Repaired spans are tidy, and in tidy
spans there is nothing that a repair changes.
-/

namespace SpanForest

namespace Value

theorem length_eq {v : Value} (h : ∃ t, v = .string t) : v.length = .ok v.textOrEmpty.length := by
  obtain ⟨t, rfl⟩ := h
  rfl

theorem isNull_and_same {v : Value} (hv : v.IsOptionalString) (i : Text) :
    (!v.isNull && v.same (.string i)) = (Value.string i).same v := by
  cases hv with
  | absent => rfl
  | present s => rw [same_string, same_string, BEq.comm]; rfl

end Value

theorem mapM_ok {ε α β : Type} {f : α → Except ε β} {g : α → β} {as : List α}
    (h : ∀ a ∈ as, f a = .ok (g a)) : as.mapM f = .ok (as.map g) := by
  induction as with
  | nil => rfl
  | cons a as ih =>
      rw [List.mapM_cons, h a List.mem_cons_self, ih fun b hb => h b (List.mem_cons_of_mem a hb)]
      rfl

namespace Trace

def normalized (traceId : Value) (s : Span) : Span :=
  { s with
    traceId := if s.traceId.textOrEmpty.length ≠ traceId.textOrEmpty.length then traceId else s.traceId
    parentId := if s.isOwnParent then .null else s.parentId }

theorem normalized_traceId (traceId : Value) (s : Span) : (normalized traceId s).traceId =
    if s.traceId.textOrEmpty.length ≠ traceId.textOrEmpty.length then traceId else s.traceId := rfl

theorem normalized_parentId (traceId : Value) (s : Span) : (normalized traceId s).parentId =
    if s.isOwnParent then .null else s.parentId := rfl

structure Sound (traceId : Value) (s : Span) : Prop where
  wellTyped : s.WellTyped
  length : s.traceId.length = traceId.length
  noOwnParent : s.isOwnParent = false

section

variable {traceId : Value} (hid : ∃ t, traceId = .string t) {s : Span}
include hid

theorem normalize_eq (hs : s.Workable) : normalize traceId s = .ok (normalized traceId s) := by
  have hown : (!s.parentId.isNull && s.parentId.same s.id) = s.isOwnParent := by
    obtain ⟨i, hi⟩ := hs.id
    rw [Span.isOwnParent, hi, Value.isNull_and_same hs.parentId]
  rw [normalize, Value.length_eq hs.traceId, Value.length_eq hid, hown]
  rfl

theorem workable_normalized (hs : s.Workable) : (normalized traceId s).Workable := by
  have htraceId : ∃ t, (normalized traceId s).traceId = .string t := by
    rw [normalized_traceId]
    split
    · exact hid
    · exact hs.traceId
  have hparentId : (normalized traceId s).parentId.IsOptionalString := by
    rw [normalized_parentId]
    split
    · exact .absent
    · exact hs.parentId
  exact { hs with traceId := htraceId, parentId := hparentId }

variable (hs : s.WellTyped)
include hs

theorem sound_normalized : Sound traceId (normalized traceId s) := by
  have hworkable := workable_normalized hid hs.workable
  have htraceId := hworkable.traceId
  have hparentId := hworkable.parentId
  refine ⟨{ hs with traceId := htraceId, parentId := hparentId }, ?_, ?_⟩
  · rw [Value.length_eq htraceId, Value.length_eq hid, normalized_traceId]
    split
    · rfl
    · next h => rw [not_not.1 h]
  · rw [Span.isOwnParent, normalized_parentId]
    split
    · obtain ⟨i, hi⟩ := hs.id
      show s.id.same .null = false
      rw [hi]
      rfl
    · next h => exact Bool.eq_false_iff.2 h

theorem normalized_eq_self (hlength : s.traceId.length = traceId.length)
    (hown : s.isOwnParent = false) : normalized traceId s = s := by
  rw [Value.length_eq hs.traceId, Value.length_eq hid, Except.ok.injEq] at hlength
  rw [normalized, if_neg (not_not.2 hlength), hown, if_neg Bool.false_ne_true]

end

theorem Sound.joined {traceId : Value} {s t : Span} (hs : Sound traceId s) (ht : Sound traceId t)
    (hkey : t.legKey = s.legKey) : Sound traceId (s.joined t) where
  wellTyped := Span.wellTyped_joined hs.wellTyped ht.wellTyped
  length := hs.length
  noOwnParent := by
    have hid : t.id = s.id := (Prod.mk.inj hkey).1
    have hparent : (s.joined t).parentId = s.parentId.orElse t.parentId := rfl
    rw [Span.isOwnParent, hparent]
    rcases Value.orElse_eq_or s.parentId t.parentId with h | h
    · rw [h]
      exact hs.noOwnParent
    · rw [h]
      have hown := ht.noOwnParent
      rw [Span.isOwnParent, hid] at hown
      exact hown

def mended (traceId : Value) (leg : Leg) : Span :=
  (normalized traceId leg.first).joinedAll (leg.others.map (normalized traceId))

theorem combineLeg_eq {traceId : Value} (hid : ∃ t, traceId = .string t) {leg : Leg}
    (hleg : ∀ p ∈ leg.parts, p.Workable) : combineLeg traceId leg = .ok (mended traceId leg) := by
  have hparts : ∀ p ∈ leg.parts, normalize traceId p = .ok (normalized traceId p) :=
    fun p hp => normalize_eq hid (hleg p hp)
  have hothers := mapM_ok fun p hp => hparts p (List.mem_cons_of_mem leg.first hp)
  rw [combineLeg, hparts leg.first List.mem_cons_self, hothers]
  refine Span.combineAll_eq (workable_normalized hid (hleg _ List.mem_cons_self)) ?_
  intro t ht
  obtain ⟨p, hp, rfl⟩ := List.mem_map.1 ht
  exact workable_normalized hid (hleg p (List.mem_cons_of_mem leg.first hp))

section

variable {traceId : Value} (hid : ∃ t, traceId = .string t) {leg : Leg} (hleg : leg.Proper)
include hid hleg

theorem mended_spec : Sound traceId (mended traceId leg) ∧
    (mended traceId leg).legKey = leg.first.legKey := by
  refine Span.joinedAll_induction (P := fun s => Sound traceId s ∧ s.legKey = leg.first.legKey)
    ⟨sound_normalized hid (hleg.typed _ List.mem_cons_self), rfl⟩ ?_
  rintro s t ⟨hs, hkey⟩ ht
  obtain ⟨p, hp, rfl⟩ := List.mem_map.1 ht
  have hp : p ∈ leg.parts := List.mem_cons_of_mem leg.first hp
  have htkey : (normalized traceId p).legKey = s.legKey := (hleg.oneKey p hp).trans hkey.symm
  have ht : Sound traceId (normalized traceId p) := sound_normalized hid (hleg.typed p hp)
  exact ⟨hs.joined ht htkey, (Span.legKey_joined hs.wellTyped ht.wellTyped htkey).trans hkey⟩

end

def adopting : Option Span → Span → Span
  | none, s => s
  | some p, s => if missesParent p s then { s with parentId := p.parentId } else s

theorem legKey_adopting (previous : Option Span) (s : Span) :
    (adopting previous s).legKey = s.legKey := by
  cases previous with
  | none => rfl
  | some p =>
      rw [adopting]
      split
      · rfl
      · rfl

theorem adopting_eq_self {previous : Option Span} {s : Span}
    (h : (previous.any fun p => missesParent p s) = false) : adopting previous s = s := by
  cases previous with
  | none => rfl
  | some p => exact if_neg (Bool.eq_false_iff.1 h)

theorem missesParent_iff {p s : Span} : missesParent p s = true ↔
    s.id.same p.id = true ∧ p.isShared = false ∧ s.isShared = true ∧ s.parentId.isNull = true ∧
      p.parentId.isNull = false := by
  simp only [missesParent, Bool.and_eq_true, Bool.not_eq_true', and_assoc]

theorem Sound.adopting {traceId : Value} {p s : Span} (hp : Sound traceId p) (hs : Sound traceId s) :
    Sound traceId (adopting (some p) s) := by
  rw [Trace.adopting]
  split
  · next hmisses =>
      obtain ⟨hid, -⟩ := missesParent_iff.1 hmisses
      obtain ⟨i, hi⟩ := hs.wellTyped.id
      obtain ⟨j, hj⟩ := hp.wellTyped.id
      have hown := hp.noOwnParent
      rw [hi, hj, Value.same_string, beq_iff_eq] at hid
      rw [Span.isOwnParent, hj, ← hid, ← hi] at hown
      exact ⟨{ hs.wellTyped with parentId := hp.wellTyped.parentId }, hs.length, hown⟩
  · exact hs

theorem settled_adopting {p s : Span} (hp : p.WellTyped) (hs : (adopting (some p) s).WellTyped)
    (hkey : p.legKey ≠ s.legKey) : Settled p (adopting (some p) s) := by
  constructor
  · rw [Bool.eq_false_iff, ne_eq, Span.sameLeg_iff hs hp, legKey_adopting]
    exact fun h => hkey h.symm
  · rw [adopting]
    split
    · next hmisses =>
        obtain ⟨-, -, -, -, hparent⟩ := missesParent_iff.1 hmisses
        rw [Bool.eq_false_iff, ne_eq, missesParent_iff]
        rintro ⟨-, -, -, hnull, -⟩
        exact Bool.false_ne_true (hparent.symm.trans hnull)
    · next hmisses => exact Bool.eq_false_iff.2 hmisses

def combinedReport (count : Nat) (traceId id : Value) : Diagnostic :=
  ⟨.debug, combinedMessage count traceId id, traceId, id⟩

/-- The report that a span was given the parent of the span before it. -/
def copiedReport (traceId id : Value) : Diagnostic :=
  ⟨.debug, copiedMessage traceId id, traceId, id⟩

def legLog (traceId : Value) (previous : Option Span) (leg : Leg) : List Diagnostic :=
  (if 1 < leg.parts.length then
    [combinedReport leg.parts.length traceId (mended traceId leg).id] else []) ++
  (if previous.any fun p => missesParent p (mended traceId leg) then
    [copiedReport traceId (mended traceId leg).id] else [])

def mendAll (traceId : Value) (previous : Option Span) : List Leg → List Span
  | [] => []
  | leg :: rest =>
      adopting previous (mended traceId leg) ::
        mendAll traceId (some (adopting previous (mended traceId leg))) rest

def repairLog (traceId : Value) (previous : Option Span) : List Leg → List Diagnostic
  | [] => []
  | leg :: rest =>
      legLog traceId previous leg ++
        repairLog traceId (some (adopting previous (mended traceId leg))) rest

theorem mendAll_ne_nil (traceId : Value) (previous : Option Span) {spans : List Span}
    (h : spans ≠ []) : mendAll traceId previous (legs spans) ≠ [] := by
  cases hlegs : legs spans with
  | nil =>
      rw [← flatMap_parts_legs spans, hlegs] at h
      exact absurd rfl h
  | cons leg rest => exact List.cons_ne_nil _ _

section

variable {traceId : Value} (hid : ∃ t, traceId = .string t)
include hid

theorem run_repairLeg (sink : Sink) (previous : Option Span) {leg : Leg}
    (hleg : ∀ p ∈ leg.parts, p.Workable) (history : Delivery) :
    (repairLeg sink traceId previous leg).run.run history =
      (.ok (adopting previous (mended traceId leg)),
        history.offerAll sink (legLog traceId previous leg)) := by
  rw [repairLeg, run_bind_ok (run_lift (combineLeg_eq hid hleg) history), legLog]
  dsimp only
  -- each of the two reports is made or not, and either way the span is the same
  cases previous with
  | none => split <;> rfl
  | some p =>
      simp only [adopting, Option.any_some]
      by_cases hmisses : missesParent p (mended traceId leg) = true
      · simp only [if_pos hmisses]
        split <;> rfl
      · simp only [if_neg hmisses]
        split <;> rfl

theorem run_repairLegs (sink : Sink) (previous : Option Span) {legs : List Leg}
    (hlegs : ∀ leg ∈ legs, ∀ p ∈ leg.parts, p.Workable) (history : Delivery) :
    (repairLegs sink traceId previous legs).run.run history =
      (.ok (mendAll traceId previous legs),
        history.offerAll sink (repairLog traceId previous legs)) := by
  induction legs generalizing previous history with
  | nil => rfl
  | cons leg rest ih =>
      have hrun := run_repairLeg hid sink previous (hlegs leg List.mem_cons_self) history
      have hrest := ih (some (adopting previous (mended traceId leg)))
        (fun m hm => hlegs m (List.mem_cons_of_mem leg hm))
        (history.offerAll sink (legLog traceId previous leg))
      rw [repairLegs, run_bind_ok hrun, run_bind_ok hrest, repairLog, Delivery.offerAll_append]
      rfl

theorem legKey_mendAll (previous : Option Span) {legs : List Leg}
    (hlegs : ∀ leg ∈ legs, leg.Proper) :
    (mendAll traceId previous legs).map Span.legKey = legs.map fun leg => leg.first.legKey := by
  induction legs generalizing previous with
  | nil => rfl
  | cons leg rest ih =>
      rw [mendAll, List.map_cons, List.map_cons, legKey_adopting,
        (mended_spec hid (hlegs leg List.mem_cons_self)).2]
      exact congrArg _ (ih _ fun m hm => hlegs m (List.mem_cons_of_mem leg hm))

theorem mendAll_spec {legs : List Leg} (hlegs : ∀ leg ∈ legs, leg.Proper)
    (hapart : legs.IsChain Leg.Apart) (previous : Option Span)
    (hprevious : ∀ p ∈ previous, Sound traceId p ∧
      ∀ leg ∈ legs.head?, p.legKey ≠ leg.first.legKey) :
    (∀ s ∈ mendAll traceId previous legs, Sound traceId s) ∧
      (previous.toList ++ mendAll traceId previous legs).IsChain Settled := by
  -- a leg may take its parent from the span before it, so that span is part of what is said
  induction legs generalizing previous with
  | nil =>
      refine ⟨nofun, ?_⟩
      cases previous with
      | none => exact .nil
      | some p => exact .singleton p
  | cons leg rest ih =>
      obtain ⟨hsound, hkey⟩ := mended_spec hid (hlegs leg List.mem_cons_self)
      have hs : Sound traceId (adopting previous (mended traceId leg)) := by
        cases previous with
        | none => exact hsound
        | some p => exact (hprevious p rfl).1.adopting hsound
      obtain ⟨hnext, hrest⟩ := List.isChain_cons.1 hapart
      have hs' : ∀ next ∈ rest.head?,
          (adopting previous (mended traceId leg)).legKey ≠ next.first.legKey := by
        intro next hmem
        rw [legKey_adopting, hkey]
        exact hnext next hmem
      obtain ⟨hall, hchain⟩ := ih (fun m hm => hlegs m (List.mem_cons_of_mem leg hm)) hrest
        (some (adopting previous (mended traceId leg))) (fun p hp => Option.some.inj hp ▸ ⟨hs, hs'⟩)
      rw [mendAll]
      refine ⟨List.forall_mem_cons.2 ⟨hs, hall⟩, ?_⟩
      cases previous with
      | none => exact hchain
      | some p =>
          obtain ⟨hp, hfirst⟩ := hprevious p rfl
          have hne : p.legKey ≠ (mended traceId leg).legKey := hkey ▸ hfirst leg rfl
          exact .cons_cons (settled_adopting hp.wellTyped hs.wellTyped hne) hchain

theorem mendAll_of_settled {spans : List Span} (hspans : ∀ s ∈ spans, Sound traceId s)
    (previous : Option Span) (hchain : (previous.toList ++ spans).IsChain Settled) :
    mendAll traceId previous (spans.map fun s => ⟨s, []⟩) = spans ∧
      repairLog traceId previous (spans.map fun s => ⟨s, []⟩) = [] := by
  induction spans generalizing previous with
  | nil => exact ⟨rfl, rfl⟩
  | cons s rest ih =>
      have hs : Sound traceId s := hspans s List.mem_cons_self
      have hmended : mended traceId ⟨s, []⟩ = s :=
        normalized_eq_self hid hs.wellTyped hs.length hs.noOwnParent
      have hmisses : (previous.any fun p => missesParent p s) = false := by
        cases previous with
        | none => rfl
        | some p => exact (List.isChain_cons_cons.1 hchain).1.2
      have hsame : adopting previous s = s := adopting_eq_self hmisses
      have hlog : legLog traceId previous ⟨s, []⟩ = [] := by
        rw [legLog, hmended, hmisses]
        rfl
      have hrest : (s :: rest).IsChain Settled := hchain.right_of_append
      obtain ⟨hmendAll, hrepairLog⟩ := ih (fun t ht => hspans t (List.mem_cons_of_mem s ht)) (some s) hrest
      rw [List.map_cons, mendAll, repairLog, hmended, hsame, hlog, hmendAll, hrepairLog]
      exact ⟨rfl, rfl⟩

end

end Trace

end SpanForest
