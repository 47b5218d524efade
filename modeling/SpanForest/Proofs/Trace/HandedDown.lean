import SpanForest.Proofs.Trace.Repaired

/-!
Parents handed down from leg to leg. A repair folds the parts of each leg; then an unshared leg with
a parent hands it down to the shared leg of its id right after it, if that has none. What comes out
at a place thus depends on two neighbouring legs only. The main statement tells which shared legs
are passed over.
-/

namespace SpanForest

/-- The parent id of a span, unless the span names itself. -/
def Span.keptParent (s : Span) : Value := if s.isOwnParent then .null else s.parentId

namespace Trace

/-- The parent id of a leg: of those that its parts keep, the first that is set. -/
def Leg.parentId (leg : Leg) : Value :=
  leg.others.foldl (fun parentId p => parentId.orElse p.keptParent) leg.first.keptParent

/-- An unshared leg that has a parent, and a shared leg of its id that has none. -/
structure Leg.HandsDown (leg next : Leg) : Prop where
  sameId : next.first.id = leg.first.id
  unshared : leg.first.isShared = false
  parent : leg.parentId ≠ .null
  shared : next.first.isShared = true
  orphan : next.parentId = .null

theorem parentId_joinedAll (traceId : Value) (s : Span) (others : List Span) :
    (s.joinedAll (others.map (normalized traceId))).parentId =
      others.foldl (fun parentId p => parentId.orElse p.keptParent) s.parentId := by
  induction others generalizing s with
  | nil => rfl
  | cons p others ih => exact ih (s.joined (normalized traceId p))

theorem parentId_mended (traceId : Value) (leg : Leg) :
    (mended traceId leg).parentId = leg.parentId :=
  parentId_joinedAll traceId (normalized traceId leg.first) leg.others

section

variable {traceId : Value} (hid : ∃ t, traceId = .string t) {leg next : Leg} (hleg : leg.Proper)
include hid hleg

theorem id_mended : (mended traceId leg).id = leg.first.id :=
  congrArg Prod.fst (mended_spec hid hleg).2

theorem isShared_mended : (mended traceId leg).isShared = leg.first.isShared :=
  congrArg (·.2.1) (mended_spec hid hleg).2

theorem missesParent_mended_iff (hnext : next.Proper) :
    missesParent (mended traceId leg) (mended traceId next) = true ↔ leg.HandsDown next := by
  obtain ⟨i, hi⟩ := (hleg.typed _ List.mem_cons_self).id
  obtain ⟨j, hj⟩ := (hnext.typed _ List.mem_cons_self).id
  have hsame : next.first.id.same leg.first.id = true ↔ next.first.id = leg.first.id := by
    rw [hi, hj, Value.same_string, beq_iff_eq, Value.string.injEq]
  have hset : leg.parentId.isNull = false ↔ leg.parentId ≠ .null := by
    rw [← Bool.not_eq_true, Value.isNull_iff]
  rw [missesParent_iff, id_mended hid hleg, id_mended hid hnext, isShared_mended hid hleg,
    isShared_mended hid hnext, parentId_mended, parentId_mended, hsame, hset, Value.isNull_iff]
  constructor
  · rintro ⟨hsameId, hunshared, hshared, horphan, hparent⟩
    exact ⟨hsameId, hunshared, hparent, hshared, horphan⟩
  · rintro ⟨hsameId, hunshared, hparent, hshared, horphan⟩
    exact ⟨hsameId, hunshared, hshared, horphan, hparent⟩

end

theorem missesParent_of_isShared {p : Span} (h : p.isShared = true) (s : Span) :
    missesParent p s = false := by
  rw [Bool.eq_false_iff, ne_eq, missesParent_iff]
  rintro ⟨-, hunshared, -⟩
  exact Bool.false_ne_true (hunshared.symm.trans h)

theorem adopting_of_unshared (previous : Option Span) {s : Span} (h : s.isShared = false) :
    adopting previous s = s := by
  cases previous with
  | none => rfl
  | some p =>
      rw [adopting, if_neg]
      rw [missesParent_iff]
      rintro ⟨-, -, hshared, -⟩
      exact Bool.false_ne_true (h.symm.trans hshared)

theorem missesParent_adopting (previous : Option Span) (p s : Span) :
    missesParent (adopting previous p) s = missesParent p s := by
  cases hshared : p.isShared with
  | false => rw [adopting_of_unshared previous hshared]
  | true =>
      have hadopting : (adopting previous p).isShared = true :=
        (congrArg (·.2.1) (legKey_adopting previous p)).trans hshared
      rw [missesParent_of_isShared hshared, missesParent_of_isShared hadopting]

theorem adopting_adopting (previous : Option Span) (p s : Span) :
    adopting (some (adopting previous p)) s = adopting (some p) s := by
  rw [adopting, adopting, missesParent_adopting]
  split
  · next hmisses =>
      obtain ⟨-, hunshared, -⟩ := missesParent_iff.1 hmisses
      rw [adopting_of_unshared previous hunshared]
  · rfl

def withPrevious (previous : Option Leg) : List Leg → List (Option Leg × Leg)
  | [] => []
  | leg :: rest => (previous, leg) :: withPrevious (some leg) rest

theorem map_withPrevious (previous : Option Leg) (legs : List Leg) :
    (withPrevious previous legs).map Prod.snd = legs := by
  induction legs generalizing previous with
  | nil => rfl
  | cons leg rest ih => rw [withPrevious, List.map_cons, ih]

theorem mem_of_mem_withPrevious {previous : Option Leg} {legs : List Leg} {q : Option Leg × Leg}
    (hq : q ∈ withPrevious previous legs) : q.2 ∈ legs := by
  rw [← map_withPrevious previous legs]
  exact List.mem_map_of_mem hq

theorem exists_mem_withPrevious (previous : Option Leg) {legs : List Leg} {leg : Leg}
    (hleg : leg ∈ legs) : ∃ earlier, (earlier, leg) ∈ withPrevious previous legs := by
  rw [← map_withPrevious previous legs] at hleg
  obtain ⟨⟨earlier, leg⟩, hq, rfl⟩ := List.mem_map.1 hleg
  exact ⟨earlier, hq⟩

theorem mem_withPrevious_iff {previous : Option Leg} {legs : List Leg} {q : Option Leg × Leg} :
    q ∈ withPrevious previous legs ↔
      ∃ before after, legs = before ++ q.2 :: after ∧ q.1 = before.getLast?.or previous := by
  induction legs generalizing previous with
  | nil => simp [withPrevious]
  | cons leg rest ih =>
      rw [withPrevious, List.mem_cons, ih]
      constructor
      · rintro (rfl | ⟨before, after, rfl, hq⟩)
        · exact ⟨[], rest, rfl, rfl⟩
        · refine ⟨leg :: before, after, rfl, ?_⟩
          rw [hq, List.getLast?_cons]
          cases before.getLast? <;> rfl
      · rintro ⟨before, after, hlegs, hq⟩
        cases before with
        | nil =>
            obtain ⟨rfl, rfl⟩ := List.cons.inj hlegs
            exact .inl (Prod.ext hq rfl)
        | cons first before =>
            obtain ⟨rfl, rfl⟩ := List.cons.inj hlegs
            refine .inr ⟨before, after, rfl, ?_⟩
            rw [hq, List.getLast?_cons]
            cases before.getLast? <;> rfl

theorem mem_withPrevious_some_iff {legs : List Leg} {p s : Leg} :
    (some p, s) ∈ withPrevious none legs ↔ [p, s] <:+: legs := by
  rw [mem_withPrevious_iff]
  simp only [Option.or_none, eq_comm (a := some p), List.getLast?_eq_some_iff]
  constructor
  · rintro ⟨_, after, rfl, before, rfl⟩
    exact ⟨before, after, by simp⟩
  · rintro ⟨before, after, rfl⟩
    exact ⟨before ++ [p], after, by simp, before, rfl⟩

def handedTo (traceId : Value) (q : Option Leg × Leg) : Span :=
  adopting (q.1.map (mended traceId)) (mended traceId q.2)

theorem mendAll_eq_map (traceId : Value) (earlier : Option Span) (previous : Option Leg)
    (legs : List Leg) :
    mendAll traceId (previous.map fun p => adopting earlier (mended traceId p)) legs =
      (withPrevious previous legs).map (handedTo traceId) := by
  induction legs generalizing earlier previous with
  | nil => rfl
  | cons leg rest ih =>
      have hfirst : adopting (previous.map fun p => adopting earlier (mended traceId p))
          (mended traceId leg) = handedTo traceId (previous, leg) := by
        cases previous with
        | none => rfl
        | some p => exact adopting_adopting earlier _ _
      rw [mendAll, withPrevious, List.map_cons, hfirst]
      exact congrArg _ (ih (previous.map (mended traceId)) (some leg))

theorem mendAll_eq_handedTo (traceId : Value) (legs : List Leg) :
    mendAll traceId none legs = (withPrevious none legs).map (handedTo traceId) :=
  mendAll_eq_map traceId none none legs

theorem repairLog_eq_flatMap (traceId : Value) (earlier : Option Span) (previous : Option Leg)
    (legs : List Leg) :
    repairLog traceId (previous.map fun p => adopting earlier (mended traceId p)) legs =
      (withPrevious previous legs).flatMap fun q => legLog traceId (q.1.map (mended traceId)) q.2 := by
  induction legs generalizing earlier previous with
  | nil => rfl
  | cons leg rest ih =>
      have hfirst : legLog traceId (previous.map fun p => adopting earlier (mended traceId p)) leg =
          legLog traceId (previous.map (mended traceId)) leg := by
        cases previous with
        | none => rfl
        | some p => simp only [legLog, Option.map_some, Option.any_some, missesParent_adopting]
      rw [repairLog, withPrevious, List.flatMap_cons, hfirst]
      exact congrArg _ (ih (previous.map fun p => adopting earlier (mended traceId p)) (some leg))

section

variable {traceId : Value} (hid : ∃ t, traceId = .string t) {legs : List Leg}
  (hlegs : ∀ leg ∈ legs, leg.Proper) {q : Option Leg × Leg} (hq : q ∈ withPrevious none legs)
include hid hlegs hq

omit hid in
theorem proper_of_mem_withPrevious : q.2.Proper ∧ ∀ p ∈ q.1, p.Proper := by
  obtain ⟨before, after, hsplit, hprevious⟩ := mem_withPrevious_iff.1 hq
  refine ⟨hlegs _ (mem_of_mem_withPrevious hq), fun p hp => hlegs p ?_⟩
  rw [hprevious, Option.or_none] at hp
  rw [hsplit]
  exact List.mem_append_left _ (List.mem_of_getLast? hp)

theorem any_missesParent_iff :
    ((q.1.map (mended traceId)).any fun p => missesParent p (mended traceId q.2)) = true ↔
      ∃ p ∈ q.1, p.HandsDown q.2 := by
  obtain ⟨hleg, hprevious⟩ := proper_of_mem_withPrevious hlegs hq
  obtain ⟨previous, leg⟩ := q
  cases previous with
  | none => simp
  | some p =>
      rw [Option.map_some, Option.any_some, missesParent_mended_iff hid (hprevious p rfl) hleg]
      simp

theorem legKey_handedTo : (handedTo traceId q).legKey = q.2.first.legKey :=
  (legKey_adopting _ _).trans (mended_spec hid (proper_of_mem_withPrevious hlegs hq).1).2

theorem id_handedTo : (handedTo traceId q).id = q.2.first.id :=
  congrArg Prod.fst (legKey_handedTo hid hlegs hq)

theorem isShared_handedTo : (handedTo traceId q).isShared = q.2.first.isShared :=
  congrArg (·.2.1) (legKey_handedTo hid hlegs hq)

theorem parentId_handedTo_eq_null_iff : (handedTo traceId q).parentId = .null ↔
    q.2.parentId = .null ∧ ¬ ∃ p ∈ q.1, p.HandsDown q.2 := by
  rw [← any_missesParent_iff hid hlegs hq, ← parentId_mended traceId]
  obtain ⟨previous, leg⟩ := q
  cases previous with
  | none => simp [handedTo, adopting]
  | some p =>
      rw [handedTo, Option.map_some, adopting, Option.any_some]
      by_cases hmisses : missesParent (mended traceId p) (mended traceId leg) = true
      · rw [if_pos hmisses]
        obtain ⟨-, -, -, -, hparent⟩ := missesParent_iff.1 hmisses
        have hset : (mended traceId p).parentId ≠ .null := by
          intro hnull
          rw [hnull] at hparent
          cases hparent
        exact iff_of_false hset fun h => h.2 hmisses
      · rw [if_neg hmisses]
        exact (and_iff_left hmisses).symm

omit hq in
theorem exists_unshared_iff (i : Value) :
    (∃ t ∈ mendAll traceId none legs, t.id = i ∧ t.isShared = false ∧ t.parentId ≠ .null) ↔
      ∃ leg ∈ legs, leg.first.id = i ∧ leg.first.isShared = false ∧ leg.parentId ≠ .null := by
  have hsame {q : Option Leg × Leg} (hq : q ∈ withPrevious none legs)
      (hunshared : q.2.first.isShared = false) : (handedTo traceId q).parentId = q.2.parentId := by
    have hleg := (proper_of_mem_withPrevious hlegs hq).1
    rw [handedTo, adopting_of_unshared _ ((isShared_mended hid hleg).trans hunshared), parentId_mended]
  rw [mendAll_eq_handedTo]
  constructor
  · rintro ⟨t, ht, rfl, hunshared, hparent⟩
    obtain ⟨q, hq, rfl⟩ := List.mem_map.1 ht
    rw [isShared_handedTo hid hlegs hq] at hunshared
    rw [hsame hq hunshared] at hparent
    exact ⟨q.2, mem_of_mem_withPrevious hq, (id_handedTo hid hlegs hq).symm, hunshared, hparent⟩
  · rintro ⟨leg, hleg, rfl, hunshared, hparent⟩
    obtain ⟨earlier, hq⟩ := exists_mem_withPrevious none hleg
    rw [← hsame hq hunshared] at hparent
    rw [← isShared_handedTo hid hlegs hq] at hunshared
    exact ⟨_, List.mem_map_of_mem hq, id_handedTo hid hlegs hq, hunshared, hparent⟩

end

/-- No shared span is without the parent id that an unshared span of its id has. -/
def ParentsKnown (spans : List Span) : Prop :=
  ∀ s ∈ spans, s.isShared = true →
    (∃ t ∈ spans, t.id = s.id ∧ t.isShared = false ∧ t.parentId ≠ .null) → s.parentId ≠ .null

/-- A shared leg without a parent, though an unshared leg of its id has one: the leg of that id right
before it is itself shared, or has no parent either. -/
def PassedOver (legs : List Leg) : Prop :=
  ∃ p s, [p, s] <:+: legs ∧ s.first.isShared = true ∧ s.parentId = .null ∧
    (∃ leg ∈ legs, leg.first.id = s.first.id ∧ leg.first.isShared = false ∧ leg.parentId ≠ .null) ∧
    p.first.id = s.first.id ∧ (p.first.isShared = true ∨ p.parentId = .null)

theorem textOrEmpty_le {s t : Span} (h : s.cleanupKey ≤ t.cleanupKey) :
    s.id.textOrEmpty ≤ t.id.textOrEmpty := by
  rcases Prod.Lex.toLex_le_toLex.1 h with hlt | ⟨heq, -⟩
  · exact le_of_lt hlt
  · exact le_of_eq heq

theorem isShared_of_le {s t : Span} (h : s.cleanupKey ≤ t.cleanupKey) (hid : s.id = t.id)
    (hs : s.isShared = true) : t.isShared = true := by
  have htext : s.id.textOrEmpty = t.id.textOrEmpty := congrArg _ hid
  rcases Prod.Lex.toLex_le_toLex.1 h with hlt | ⟨-, hrest⟩
  · exact absurd htext (ne_of_lt hlt)
  · rcases Prod.Lex.toLex_le_toLex.1 hrest with hlt | ⟨heq, -⟩
    · have hlt : s.isShared < t.isShared := hlt
      rw [hs] at hlt
      exact absurd hlt (not_lt_of_ge (Bool.le_true _))
    · exact heq.symm.trans hs

theorem id_eq_of_between {s t u : Span} (hst : s.cleanupKey ≤ t.cleanupKey)
    (htu : t.cleanupKey ≤ u.cleanupKey) (hsu : s.id = u.id) (ht : t.WellTyped) (hu : u.WellTyped) :
    t.id = u.id := by
  have hle := textOrEmpty_le hst
  have hge := textOrEmpty_le htu
  rw [hsu] at hle
  obtain ⟨i, hi⟩ := ht.id
  obtain ⟨j, hj⟩ := hu.id
  rw [hi, hj] at hle hge ⊢
  exact congrArg Value.string (le_antisymm hge hle)

theorem inOrder_legs {spans : List Span} (h : Sorting.InOrder Span.cleanupKey spans) :
    (legs spans).Pairwise fun leg next => leg.first.cleanupKey ≤ next.first.cleanupKey := by
  have hfirst : Sorting.InOrder Span.cleanupKey ((legs spans).map Leg.first) :=
    List.Pairwise.sublist (first_legs_sublist spans) h
  rw [Sorting.InOrder, List.pairwise_map] at hfirst
  exact hfirst

section

variable {legs : List Leg} (hlegs : ∀ leg ∈ legs, leg.Proper)
  (hordered : legs.Pairwise fun leg next => leg.first.cleanupKey ≤ next.first.cleanupKey)
include hlegs hordered

theorem exists_previous {q : Option Leg × Leg} (hq : q ∈ withPrevious none legs)
    (hshared : q.2.first.isShared = true) {leg : Leg} (hleg : leg ∈ legs)
    (hsame : leg.first.id = q.2.first.id) (hunshared : leg.first.isShared = false) :
    ∃ p, q.1 = some p ∧ p.first.id = q.2.first.id := by
  obtain ⟨before, after, rfl, hprevious⟩ := mem_withPrevious_iff.1 hq
  have typed : ∀ m ∈ before ++ q.2 :: after, m.first.WellTyped :=
    fun m hm => (hlegs m hm).typed _ List.mem_cons_self
  obtain ⟨hbefore, hfrom, hbetween⟩ := List.pairwise_append.1 hordered
  have hleg : leg ∈ before := by
    rcases List.mem_append.1 hleg with hleg | hleg
    · exact hleg
    · have hle : q.2.first.cleanupKey ≤ leg.first.cleanupKey := by
        rcases List.mem_cons.1 hleg with rfl | hleg
        · exact le_refl _
        · exact (List.pairwise_cons.1 hfrom).1 leg hleg
      have hleg := isShared_of_le hle hsame.symm hshared
      exact absurd (hunshared.symm.trans hleg) Bool.false_ne_true
  obtain ⟨init, p, rfl⟩ := (List.eq_nil_or_concat' before).resolve_left (List.ne_nil_of_mem hleg)
  rw [List.getLast?_concat, Option.some_or] at hprevious
  have hp : p ∈ init ++ [p] := by simp
  have hle : leg.first.cleanupKey ≤ p.first.cleanupKey := by
    rcases List.mem_append.1 hleg with hleg | hleg
    · exact (List.pairwise_append.1 hbefore).2.2 leg hleg p List.mem_cons_self
    · rw [List.mem_singleton.1 hleg]
  have hq : q.2 ∈ init ++ [p] ++ q.2 :: after := by simp
  exact ⟨p, hprevious, id_eq_of_between hle (hbetween p hp q.2 List.mem_cons_self) hsame
    (typed p (List.mem_append_left _ hp)) (typed q.2 hq)⟩

theorem parentsKnown_mendAll_iff {traceId : Value} (hid : ∃ t, traceId = .string t) :
    ParentsKnown (mendAll traceId none legs) ↔ ¬ PassedOver legs := by
  constructor
  · rintro h ⟨p, s, hneighbours, hshared, horphan, hclient, -, hgap⟩
    have hq := mem_withPrevious_some_iff.2 hneighbours
    have hmem : handedTo traceId (some p, s) ∈ mendAll traceId none legs := by
      rw [mendAll_eq_handedTo]
      exact List.mem_map_of_mem hq
    have hnot : ¬ ∃ p' ∈ some p, p'.HandsDown s := by
      rintro ⟨p', hp', hdown⟩
      obtain rfl := Option.some.inj hp'
      rcases hgap with hgap | hgap
      · exact Bool.false_ne_true (hdown.unshared.symm.trans hgap)
      · exact hdown.parent hgap
    rw [← isShared_handedTo hid hlegs hq] at hshared
    rw [← id_handedTo hid hlegs hq, ← exists_unshared_iff hid hlegs] at hclient
    exact h _ hmem hshared hclient ((parentId_handedTo_eq_null_iff hid hlegs hq).2 ⟨horphan, hnot⟩)
  · intro h s hs hshared hclient hnull
    rw [mendAll_eq_handedTo] at hs
    obtain ⟨q, hq, rfl⟩ := List.mem_map.1 hs
    obtain ⟨horphan, hnot⟩ := (parentId_handedTo_eq_null_iff hid hlegs hq).1 hnull
    rw [isShared_handedTo hid hlegs hq] at hshared
    rw [id_handedTo hid hlegs hq, exists_unshared_iff hid hlegs] at hclient
    obtain ⟨leg, hleg, hsame, hunshared, hparent⟩ := hclient
    obtain ⟨p, hp, hid'⟩ := exists_previous hlegs hordered hq hshared hleg hsame hunshared
    have hneighbours : [p, q.2] <:+: legs := mem_withPrevious_some_iff.1 (hp ▸ hq)
    have hgap : p.first.isShared = true ∨ p.parentId = .null := by
      by_contra hgap
      rw [not_or, Bool.not_eq_true] at hgap
      exact hnot ⟨p, hp, hid'.symm, hgap.1, hgap.2, hshared, horphan⟩
    exact h ⟨p, q.2, hneighbours, hshared, horphan, ⟨leg, hleg, hsame, hunshared, hparent⟩, hid', hgap⟩

end

theorem ParentsKnown.of_perm {spans spans' : List Span} (hperm : spans.Perm spans')
    (h : ParentsKnown spans) : ParentsKnown spans' := by
  rintro s hs hshared ⟨t, ht, hclient⟩
  exact h s (hperm.mem_iff.2 hs) hshared ⟨t, hperm.mem_iff.2 ht, hclient⟩

theorem not_passedOver_of_nodup {legs : List Leg}
    (h : (legs.map fun leg => (leg.first.id, leg.first.isShared)).Nodup) : ¬ PassedOver legs := by
  rintro ⟨p, s, hneighbours, hshared, -, ⟨leg, hleg, hsame, hunshared, hparent⟩, hid, hgap⟩
  have hpair := (hneighbours.map fun leg => (leg.first.id, leg.first.isShared)).sublist.nodup h
  have hp : p ∈ legs := hneighbours.subset (by simp)
  have hside : p.first.isShared = false := by
    rw [Bool.eq_false_iff]
    intro hside
    simp [hid, hside, hshared] at hpair
  have hone : p = leg := List.inj_on_of_nodup_map h hp hleg (by rw [hid, hside, hsame, hunshared])
  rcases hgap with hgap | hgap
  · exact Bool.false_ne_true (hside.symm.trans hgap)
  · exact hparent (hone ▸ hgap)

/-- Every shared span that comes out has the parent id that an unshared span of its id has, exactly if
no shared leg is passed over. -/
theorem merge_parentsKnown_iff (sink : Sink) (history : Delivery) {first second : Span}
    {rest : List Span} (typed : ∀ s ∈ first :: second :: rest, s.WellTyped) :
    ∃ ordered m after, Span.cleanupSort (first :: second :: rest) = .ok ordered ∧
      (merge sink (first :: second :: rest)).run.run history = (.ok m, after) ∧
      (ParentsKnown (m.spans (first :: second :: rest)) ↔ ¬ PassedOver (legs ordered)) := by
  obtain ⟨ordered, found, m, hsort, -, hperm, htyped, hordered, hid, hrun, houtcome⟩ :=
    merge_reported sink history typed
  refine ⟨ordered, m, _, hsort, hrun, ?_⟩
  rw [← parentsKnown_mendAll_iff (legs_spec htyped).1 (inOrder_legs hordered) hid]
  rcases houtcome with ⟨rfl, -, hmendAll, -⟩ | rfl
  · rw [hmendAll]
    exact ⟨.of_perm hperm.symm, .of_perm hperm⟩
  · rfl

/-- A call that two servers answered, of which only one was sent the parent id. -/
def twoServers : List Span :=
  [{ traceId := .string "1", id := .string "2", parentId := .string "1",
      localEndpoint := some { serviceName := .string "web" } },
    { traceId := .string "1", id := .string "2", parentId := .string "1", shared := .bool true,
      localEndpoint := some { serviceName := .string "east" } },
    { traceId := .string "1", id := .string "2", shared := .bool true,
      localEndpoint := some { serviceName := .string "west" } }]

theorem wellTyped_twoServers : ∀ s ∈ twoServers, s.WellTyped := by
  have endpoint (name : Text) : ∀ e ∈ some ({ serviceName := .string name } : Endpoint),
      e.WellTyped := by
    intro e he
    rw [← Option.some.inj he]
    exact ⟨.present name, .absent, .absent, .absent⟩
  intro s hs
  simp only [twoServers, List.mem_cons, List.not_mem_nil, or_false] at hs
  rcases hs with rfl | rfl | rfl
  · exact ⟨⟨_, rfl⟩, ⟨_, rfl⟩, .present "1", .absent, .absent, .absent, .absent, endpoint "web", nofun,
      nofun, nofun, .nil, .absent, .absent⟩
  · exact ⟨⟨_, rfl⟩, ⟨_, rfl⟩, .present "1", .absent, .absent, .absent, .absent, endpoint "east", nofun,
      nofun, nofun, .nil, .absent, .present true⟩
  · exact ⟨⟨_, rfl⟩, ⟨_, rfl⟩, .absent, .absent, .absent, .absent, .absent, endpoint "west", nofun,
      nofun, nofun, .nil, .absent, .present true⟩

theorem merge_parentsKnown_iff_twoServers : (∀ s ∈ twoServers, s.WellTyped) ∧
    ∃ ordered m after, Span.cleanupSort twoServers = .ok ordered ∧
      (merge Sink.quiet twoServers).run.run .empty = (.ok m, after) ∧
      (ParentsKnown (m.spans twoServers) ↔ ¬ PassedOver (legs ordered)) :=
  ⟨wellTyped_twoServers, merge_parentsKnown_iff Sink.quiet .empty wellTyped_twoServers⟩

/-- The other server stays without it: the leg right before its own is that of the first server. -/
theorem not_parentsKnown_twoServers : (∀ s ∈ twoServers, s.WellTyped) ∧
    ∃ m after, (merge Sink.quiet twoServers).run.run .empty = (.ok m, after) ∧
      ¬ ParentsKnown (m.spans twoServers) := by
  obtain ⟨after, hrun⟩ := exists_eq_ok (show ((merge Sink.quiet twoServers).run.run
    .empty).1.toOption = some .unchanged by decide +kernel)
  refine ⟨wellTyped_twoServers, _, after, hrun, fun h => ?_⟩
  refine h _ (List.mem_cons_of_mem _ (List.mem_cons_of_mem _ List.mem_cons_self)) rfl
    ⟨_, List.mem_cons_self, rfl, rfl, ?_⟩ rfl
  decide

end Trace

end SpanForest
