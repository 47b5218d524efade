import SpanForest.Proofs.Span.Associative

/-!
A run of parts combined in any brackets. Parts may be combined with their neighbours in whatever
groups: they come to the one span that they come to one after the other. A part that is combined
again right away changes nothing, for it is combined with itself first, and by that only its
annotations are put in order.
-/

namespace SpanForest

namespace Annotation

theorem united_united_self {as bs : List Annotation} (has : ∀ a ∈ as, a.WellTyped)
    (hbs : ∀ b ∈ bs, b.WellTyped) : united as (united bs bs) = united as bs := by
  have hab : ∀ a ∈ as ++ bs, a.WellTyped := List.forall_mem_append.2 ⟨has, hbs⟩
  have hbb : ∀ b ∈ bs ++ bs, b.WellTyped := List.forall_mem_append.2 ⟨hbs, hbs⟩
  have hunited : ∀ a ∈ as ++ united bs bs, a.WellTyped :=
    List.forall_mem_append.2 ⟨has, wellTyped_united hbb⟩
  refine eq_of_mem_iff (wellTyped_united hunited) (fun a => ?_) (inOrder_united hunited)
    (inOrder_united hab) (nodup_united hunited) (nodup_united hab)
  rw [mem_united hunited, mem_united hab, mem_united hbb, or_self]

end Annotation

namespace Span

theorem combineName_self (v : Value) : combineName v v = v := by
  rw [combineName, Value.orElse_self, ite_self]

theorem combineFlag_self {v : Value} (h : v.IsFlag) : combineFlag v v = v := by
  rw [combineFlag, h.isSet, Bool.or_self]
  cases h with
  | absent => rfl
  | present b => cases b <;> rfl

theorem joined_self {s : Span} (h : s.WellTyped) :
    s.joined s = { s with annotations := Annotation.united s.annotations s.annotations } := by
  simp only [joined, Value.orElse_self, combineName_self, Endpoint.combineOption_self,
    Table.update_self h.tagNames, combineFlag_self h.debug, combineFlag_self h.shared]

theorem joined_joined_self {s t : Span} (hs : s.WellTyped) (ht : t.WellTyped) :
    (s.joined t).joined t = s.joined t := by
  rw [joined_assoc hs ht ht, joined_self ht]
  simp only [joined, Annotation.united_united_self hs.annotations ht.annotations]

theorem wellTyped_joinedAll {s : Span} {others : List Span} (hs : s.WellTyped)
    (hothers : ∀ t ∈ others, t.WellTyped) : (s.joinedAll others).WellTyped :=
  joinedAll_induction hs fun _ t hs ht => wellTyped_joined hs (hothers t ht)

theorem joined_joinedAll {r s : Span} {others : List Span} (hr : r.WellTyped) (hs : s.WellTyped)
    (hothers : ∀ t ∈ others, t.WellTyped) :
    r.joined (s.joinedAll others) = (r.joined s).joinedAll others := by
  induction others generalizing s with
  | nil => rfl
  | cons t others ih =>
      have ht : t.WellTyped := hothers t List.mem_cons_self
      have hrest := ih (wellTyped_joined hs ht) fun u hu => hothers u (List.mem_cons_of_mem t hu)
      rw [← joined_assoc hr hs ht] at hrest
      exact hrest

/-- Neighbouring parts in the groups in which they are combined. -/
inductive Bracketing where
  | part (s : Span)
  | group (left right : Bracketing)

namespace Bracketing

def parts : Bracketing → List Span
  | part s => [s]
  | group left right => left.parts ++ right.parts

def combine : Bracketing → Except Fault Span
  | part s => .ok s
  | group left right => do
      let s ← left.combine
      let t ← right.combine
      s.combine t

theorem exists_cons_parts (b : Bracketing) : ∃ s ts, b.parts = s :: ts := by
  induction b with
  | part s => exact ⟨s, [], rfl⟩
  | group left right ihLeft _ =>
      obtain ⟨s, ts, hparts⟩ := ihLeft
      exact ⟨s, ts ++ right.parts, congrArg (· ++ right.parts) hparts⟩

theorem combine_eq {b : Bracketing} {s : Span} {ts : List Span} (hparts : b.parts = s :: ts)
    (typed : ∀ t ∈ s :: ts, t.WellTyped) : b.combine = .ok (s.joinedAll ts) := by
  induction b generalizing s ts with
  | part r =>
      obtain ⟨rfl, rfl⟩ := List.cons.inj hparts
      rfl
  | group left right ihLeft ihRight =>
      obtain ⟨r, rs, hleft⟩ := left.exists_cons_parts
      obtain ⟨u, us, hright⟩ := right.exists_cons_parts
      rw [parts, hleft, hright, List.cons_append] at hparts
      obtain ⟨rfl, rfl⟩ := List.cons.inj hparts
      have typedBoth : ∀ t ∈ (r :: rs) ++ (u :: us), t.WellTyped := typed
      obtain ⟨typedLeft, typedRight⟩ := List.forall_mem_append.1 typedBoth
      obtain ⟨hr, hrs⟩ := List.forall_mem_cons.1 typedLeft
      obtain ⟨hu, hus⟩ := List.forall_mem_cons.1 typedRight
      have hfirst : (r.joinedAll rs).WellTyped := wellTyped_joinedAll hr hrs
      have hsecond : (u.joinedAll us).WellTyped := wellTyped_joinedAll hu hus
      rw [combine, ihLeft hleft typedLeft, ihRight hright typedRight]
      calc (r.joinedAll rs).combine (u.joinedAll us)
        _ = .ok ((r.joinedAll rs).joined (u.joinedAll us)) :=
          Span.combine_eq hfirst.workable hsecond.workable
        _ = .ok (((r.joinedAll rs).joined u).joinedAll us) := by rw [joined_joinedAll hfirst hu hus]
        _ = .ok (r.joinedAll (rs ++ u :: us)) := by
          simp only [joinedAll, List.foldl_append, List.foldl_cons]

end Bracketing

/-- Combining parts is associative, and the latest part can be combined a second time. So a run of
parts comes to one span in whatever brackets, and it comes to the same if its latest part, which was
combined with earlier ones, is delivered twice. -/
theorem combine_assoc_and_absorbs :
    (∀ r s t : Span, r.WellTyped → s.WellTyped → t.WellTyped →
      ∃ rs st whole, r.combine s = .ok rs ∧ s.combine t = .ok st ∧
        rs.combine t = .ok whole ∧ r.combine st = .ok whole ∧ rs.combine s = .ok rs) ∧
    ∀ (s : Span) (ts : List Span), (∀ t ∈ s :: ts, t.WellTyped) →
      ∃ whole, s.combineAll ts = .ok whole ∧
        (∀ b : Bracketing, b.parts = s :: ts → b.combine = .ok whole) ∧
        ∀ latest ∈ ts.getLast?, s.combineAll (ts ++ [latest]) = .ok whole := by
  constructor
  · intro r s t hr hs ht
    have hrs : (r.joined s).WellTyped := wellTyped_joined hr hs
    have hst : (s.joined t).WellTyped := wellTyped_joined hs ht
    refine ⟨r.joined s, s.joined t, (r.joined s).joined t, combine_eq hr.workable hs.workable,
      combine_eq hs.workable ht.workable, combine_eq hrs.workable ht.workable, ?_, ?_⟩
    · rw [combine_eq hr.workable hst.workable, joined_assoc hr hs ht]
    · rw [combine_eq hrs.workable hs.workable, joined_joined_self hr hs]
  · intro s ts typed
    obtain ⟨hs, hts⟩ := List.forall_mem_cons.1 typed
    have hall (us : List Span) (hus : ∀ u ∈ us, u.WellTyped) :
        s.combineAll us = .ok (s.joinedAll us) :=
      combineAll_eq hs.workable fun u hu => (hus u hu).workable
    refine ⟨s.joinedAll ts, hall ts hts, fun b hb => Bracketing.combine_eq hb typed, ?_⟩
    intro latest hlatest
    obtain ⟨before, rfl⟩ := List.getLast?_eq_some_iff.1 hlatest
    obtain ⟨hbefore, hlast⟩ := List.forall_mem_append.1 hts
    have ht : latest.WellTyped := hlast latest (List.mem_singleton_self latest)
    rw [hall _ (List.forall_mem_append.2 ⟨hts, hlast⟩)]
    simp only [joinedAll, List.foldl_append, List.foldl_cons, List.foldl_nil]
    exact congrArg Except.ok (joined_joined_self (wellTyped_joinedAll hs hbefore) ht)

def clientPart : Span :=
  { traceId := .string "7b", id := .string "1", name := .string "unknown"
    annotations := [⟨.int 2, .string "received"⟩, ⟨.int 1, .string "sent"⟩]
    tags := [("version", .string "1.1"), ("path", .string "/")] }

def relayPart : Span :=
  { traceId := .string "7b", id := .string "1", name := .string "", duration := .int 0
    localEndpoint := some { serviceName := .string "relay" }, tags := [("path", .string "/a")]
    debug := .bool false }

def serverPart : Span :=
  { traceId := .string "7b", id := .string "1", name := .string "get", duration := .int 5
    localEndpoint := some { port := .int 0 }, annotations := [⟨.int 1, .string "sent"⟩]
    tags := [("code", .string "200"), ("path", .string "/b")], debug := .bool true }

theorem wellTyped_relayedParts : ∀ s ∈ [clientPart, relayPart, serverPart], s.WellTyped := by
  have endpoint {service port : Value} (hservice : service.IsOptionalString)
      (hport : port.IsOptionalInt) :
      ∀ e ∈ some ({ serviceName := service, port } : Endpoint), e.WellTyped := by
    intro e he
    rw [← Option.some.inj he]
    exact ⟨hservice, .absent, .absent, hport⟩
  have sent : (⟨.int 1, .string "sent"⟩ : Annotation).WellTyped := ⟨⟨_, rfl⟩, ⟨_, rfl⟩⟩
  have received : (⟨.int 2, .string "received"⟩ : Annotation).WellTyped := ⟨⟨_, rfl⟩, ⟨_, rfl⟩⟩
  refine List.forall_mem_cons.2 ⟨?_, List.forall_mem_cons.2 ⟨?_, List.forall_mem_singleton.2 ?_⟩⟩
  · exact ⟨⟨_, rfl⟩, ⟨_, rfl⟩, .absent, .absent, .present _, .absent, .absent, nofun, nofun,
      by simp [clientPart, sent, received], by simp [clientPart], by decide, .absent, .absent⟩
  · exact ⟨⟨_, rfl⟩, ⟨_, rfl⟩, .absent, .absent, .present _, .absent, .present 0,
      endpoint (.present _) .absent, nofun, nofun, by simp [relayPart], by decide, .present false,
      .absent⟩
  · exact ⟨⟨_, rfl⟩, ⟨_, rfl⟩, .absent, .absent, .present _, .absent, .present 5,
      endpoint .absent (.present 0), nofun, by simp [serverPart, sent], by simp [serverPart],
      by decide, .present true, .absent⟩

theorem combine_assoc_and_absorbs_relayedParts :
    (∀ s ∈ [clientPart, relayPart, serverPart], s.WellTyped) ∧
      (∃ rs st whole, clientPart.combine relayPart = .ok rs ∧ relayPart.combine serverPart = .ok st ∧
        rs.combine serverPart = .ok whole ∧ clientPart.combine st = .ok whole ∧
        rs.combine relayPart = .ok rs) ∧
      ∃ whole, clientPart.combineAll [relayPart, serverPart] = .ok whole ∧
        (∀ b : Bracketing, b.parts = [clientPart, relayPart, serverPart] → b.combine = .ok whole) ∧
        ∀ latest ∈ [relayPart, serverPart].getLast?,
          clientPart.combineAll ([relayPart, serverPart] ++ [latest]) = .ok whole := by
  have typed := wellTyped_relayedParts
  exact ⟨typed, combine_assoc_and_absorbs.1 _ _ _ (typed _ (.head _)) (typed _ (.tail _ (.head _)))
      (typed _ (.tail _ (.tail _ (.head _)))),
    combine_assoc_and_absorbs.2 clientPart [relayPart, serverPart] typed⟩

end Span

end SpanForest
