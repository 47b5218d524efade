import SpanForest.Proofs.Command.Rendered
import SpanForest.Proofs.Files.Ascii
import SpanForest.Proofs.Trace.Canonical
import SpanForest.Proofs.Trace.Groups

/-!
The command on its own output. A run that writes canonical spans as JSON puts the traces one after
the other, each repaired; a run on that text finds the same traces and nothing to repair in them,
and prints the text again. Both files are plain ones.
-/

namespace SpanForest

namespace Trace

structure CanonicalBlocks (blocks : Table Text (List Span)) : Prop where
  names : (Table.keys blocks).Nodup
  notEmpty : ∀ b ∈ blocks, b.2 ≠ []
  canonical : ∀ b ∈ blocks, ∀ s ∈ b.2, CanonicalUnder b.1 s

theorem CanonicalBlocks.blocks {blocks : Table Text (List Span)} (h : CanonicalBlocks blocks) :
    Blocks blocks :=
  ⟨h.names, h.notEmpty, fun b hb s hs => (h.canonical b hb s hs).traceId⟩

theorem CanonicalBlocks.canonical_flatMap {blocks : Table Text (List Span)}
    (h : CanonicalBlocks blocks) : ∀ s ∈ blocks.flatMap Prod.snd, s.Canonical := by
  intro s hs
  obtain ⟨b, hb, hs⟩ := List.mem_flatMap.1 hs
  exact (h.canonical b hb s hs).canonical

theorem exists_canonicalBlocks {spans : List Span} (h : ∀ s ∈ spans, s.Canonical) :
    ∃ blocks, CanonicalBlocks blocks ∧ groups spans = blockGroups blocks := by
  have hids : ∀ s ∈ spans, ∃ i, s.traceId = .string i :=
    fun s hs => (h s hs).traceId.imp fun _ ht => ht.1
  have hblocks := blocks_textBlocks hids
  have hmem : ∀ b ∈ textBlocks spans, ∀ s ∈ b.2, s ∈ spans := by
    intro b hb s hs
    exact (Table.flatMap_partition_perm _ spans).mem_iff.1 (List.mem_flatMap.2 ⟨b, hb, hs⟩)
  exact ⟨textBlocks spans, ⟨hblocks.names, hblocks.notEmpty,
    fun b hb s hs => ⟨h s (hmem b hb s hs), hblocks.traceId b hb s hs⟩⟩, groups_eq_textBlocks hids⟩

theorem map_blockGroups (blocks : Table Text (List Span)) :
    (blockGroups blocks).map Prod.snd = blocks.map Prod.snd := by
  rw [blockGroups, Table.image, List.map_map]
  rfl

end Trace

theorem Text.Plain.ascii {cs : List Char} (h : Text.Plain cs) : Utf8.Ascii cs := by
  intro c hc
  have hplain := h c hc
  simp only [Text.isPlain, Bool.and_eq_true, decide_eq_true_eq] at hplain
  omega

namespace Command

open Trace

theorem run_repairedTrace (sink : Sink) (noMerge : Bool) (history : Delivery) {i : Text}
    {spans : List Span} (h : ∀ s ∈ spans, CanonicalUnder i s) :
    ∃ out after, (repairedTrace sink noMerge spans).run.run history = (.ok out, after) ∧
      (∀ s ∈ out, CanonicalUnder i s) ∧ (spans ≠ [] → out ≠ []) ∧
      ∀ sink' history', (repairedTrace sink' noMerge out).run.run history' = (.ok out, history') := by
  cases noMerge with
  | true => exact ⟨spans, history, rfl, h, id, fun _ _ => rfl⟩
  | false =>
      obtain ⟨m, after, hrun, hcanonical, hne, hagain⟩ := merge_canonical sink history h
      exact ⟨m.spans spans, after, run_map_ok _ hrun, hcanonical, hne,
        fun sink' history' => run_map_ok _ (hagain sink' history')⟩

def StayPut (noMerge : Bool) (blocks : Table Text (List Span)) : Prop :=
  ∀ sink history, (mergedSpans sink noMerge (blocks.map Prod.snd)).run.run history =
    (.ok (blocks.flatMap Prod.snd), history)

theorem run_mergedSpans (sink : Sink) (noMerge : Bool) (history : Delivery)
    {blocks : Table Text (List Span)} (h : CanonicalBlocks blocks) :
    ∃ out after, CanonicalBlocks out ∧ Table.keys out = Table.keys blocks ∧ StayPut noMerge out ∧
      (mergedSpans sink noMerge (blocks.map Prod.snd)).run.run history =
        (.ok (out.flatMap Prod.snd), after) := by
  induction blocks generalizing history with
  | nil => exact ⟨[], history, h, rfl, fun _ _ => rfl, rfl⟩
  | cons b blocks ih =>
      obtain ⟨i, spans⟩ := b
      obtain ⟨hi, hnames⟩ := List.nodup_cons.1 h.names
      obtain ⟨hspans, hnotEmpty⟩ := List.forall_mem_cons.1 h.notEmpty
      obtain ⟨hblock, hcanonical⟩ := List.forall_mem_cons.1 h.canonical
      obtain ⟨merged, between, hrun, hmerged, hne, hagain⟩ :=
        run_repairedTrace sink noMerge history hblock
      obtain ⟨out, after, hout, hkeys, hstay, hrest⟩ := ih between ⟨hnames, hnotEmpty, hcanonical⟩
      have hnext : Table.keys ((i, merged) :: out) = Table.keys ((i, spans) :: blocks) := by
        rw [Table.keys_cons, Table.keys_cons, hkeys]
      refine ⟨(i, merged) :: out, after, ⟨?_, ?_, ?_⟩, hnext, fun sink' history' => ?_, ?_⟩
      · rw [hnext]
        exact h.names
      · exact List.forall_mem_cons.2 ⟨hne hspans, hout.notEmpty⟩
      · exact List.forall_mem_cons.2 ⟨hmerged, hout.canonical⟩
      · exact run_collect_cons (hagain sink' history') (hstay sink' history')
      · exact run_collect_cons hrun hrest

theorem lines_writeList (spans : List Span) {tail : List Char} (htail : tail = [] ∨ tail = ['\n']) :
    TextSource.lines ⟨Span.writeList spans ++ tail, none⟩ = [Span.writeList spans] := by
  have hplain := Span.plain_writeList spans
  have hend : '\n' ∉ Span.writeList spans := hplain.notMem (by decide)
  have hreturn : '\r' ∉ Span.writeList spans ++ tail := by
    rw [List.mem_append, not_or]
    refine ⟨hplain.notMem (by decide), ?_⟩
    rcases htail with rfl | rfl <;> decide
  rw [TextSource.lines, Text.unify_of_notMem hreturn]
  rcases htail with rfl | rfl
  · rw [List.append_nil, Text.lines_of_notMem hend (List.cons_ne_nil _ _)]
  · rw [Text.lines_append_mark hend, Text.lines_nil]

theorem readSource_writeList {spans : List Span} (canonical : ∀ s ∈ spans, s.Canonical)
    {tail : List Char} (htail : tail = [] ∨ tail = ['\n']) :
    readSource ⟨Span.writeList spans ++ tail, none⟩ = ⟨.ok spans, []⟩ := by
  have hlists : ∀ l ∈ [spans], ∀ s ∈ l, s.Canonical := List.forall_mem_singleton.2 canonical
  rw [readSource, lines_writeList spans htail]
  simpa using readLines_canonical 1 hlists

theorem ascii_writeList (spans : List Span) {tail : List Char}
    (htail : tail = [] ∨ tail = ['\n']) : Utf8.Ascii (Span.writeList spans ++ tail) := by
  refine List.forall_mem_append.2 ⟨(Span.plain_writeList spans).ascii, ?_⟩
  rcases htail with rfl | rfl
  · exact nofun
  · simp

theorem openInput_writeList {files : Directory} {path : String} (stdin : List Char)
    (hpath : path ≠ standardInput) (harchive : namesArchive path = false) {spans : List Span}
    {tail : List Char} (htail : tail = [] ∨ tail = ['\n'])
    (hfile : files.read path = .ok (Utf8.encode (Span.writeList spans ++ tail))) :
    openInput files stdin path = ⟨Span.writeList spans ++ tail, none⟩ := by
  have hascii := ascii_writeList spans htail
  rw [openInput, if_neg hpath, hfile]
  dsimp only
  rw [decodeFile, harchive, if_neg Bool.false_ne_true, ByteSource.decode_ofBytes_encode hascii]

/-- Words that ask for the spans of a file, which is no archive, as JSON on standard output. -/
structure AsksForJson (args : List String) (noMerge : Bool) (path : String) : Prop where
  read : ∃ verbose, Options.read args = .ok ⟨path, .standardOutput, .json, noMerge, verbose⟩
  notInput : path ≠ standardInput
  noArchive : namesArchive path = false

theorem run_writeList {args : List String} {noMerge : Bool} {path : String}
    (asks : AsksForJson args noMerge path) {files : Directory} (stdin : List Char)
    {spans : List Span} (canonical : ∀ s ∈ spans, s.Canonical) {tail : List Char}
    (htail : tail = [] ∨ tail = ['\n'])
    (hfile : files.read path = .ok (Utf8.encode (Span.writeList spans ++ tail)))
    {merged : List Span} {after : Delivery}
    (hmerged : (mergedSpans Sink.quiet noMerge ((groups spans).map Prod.snd)).run.run .empty =
      (.ok merged, after)) :
    ∃ log, run args files stdin =
      ⟨.code 0, String.ofList (Span.writeList merged ++ ['\n']), log, [], files⟩ := by
  obtain ⟨verbose, hread⟩ := asks.read
  have houtput : (output Sink.quiet ⟨path, .standardOutput, .json, noMerge, verbose⟩
      ((groups spans).map Prod.snd)).run.run .empty =
        (.ok (Text.ofChars (Span.writeList merged ++ ['\n'])), after) := run_bind_ok hmerged
  rw [run, hread]
  dsimp only
  rw [runRequest, openInput_writeList stdin asks.notInput asks.noArchive htail hfile, produce,
    readSource_writeList canonical htail]
  dsimp only
  rw [houtput]
  dsimp only [Except.map]
  rw [deliver, Text.chars?_ofChars]
  exact ⟨_, rfl⟩

/-- What a run prints for a file of canonical spans, a run on a file of that text prints again. -/
theorem run_reformatted {args : List String} {noMerge : Bool} {path : String}
    (asks : AsksForJson args noMerge path) {files : Directory} (stdin : List Char)
    {spans : List Span} (canonical : ∀ s ∈ spans, s.Canonical)
    (hfile : files.read path = .ok (Utf8.encode (Span.writeList spans))) :
    ∃ merged after text log, (∀ s ∈ merged, s.Canonical) ∧
      (mergedSpans Sink.quiet noMerge ((groups spans).map Prod.snd)).run.run .empty =
        (.ok merged, after) ∧
      text = String.ofList (Span.writeList merged ++ ['\n']) ∧
      run args files stdin = ⟨.code 0, text, log, [], files⟩ ∧
      ∀ args' path' files' stdin', AsksForJson args' noMerge path' →
        Directory.read files' path' = .ok (Utf8.encode text.toList) →
        ∃ log', run args' files' stdin' = ⟨.code 0, text, log', [], files'⟩ := by
  obtain ⟨blocks, hblocks, hgroups⟩ := exists_canonicalBlocks canonical
  obtain ⟨out, after, hout, -, hstay, hmerged⟩ := run_mergedSpans Sink.quiet noMerge .empty hblocks
  have hout' : (mergedSpans Sink.quiet noMerge
      ((groups (out.flatMap Prod.snd)).map Prod.snd)).run.run .empty =
        (.ok (out.flatMap Prod.snd), .empty) := by
    rw [groups_blocks hout.blocks, map_blockGroups]
    exact hstay Sink.quiet .empty
  rw [← map_blockGroups, ← hgroups] at hmerged
  rw [← List.append_nil (Span.writeList spans)] at hfile
  obtain ⟨log, hrun⟩ := run_writeList asks stdin canonical (.inl rfl) hfile hmerged
  refine ⟨_, _, _, log, hout.canonical_flatMap, hmerged, rfl, hrun, ?_⟩
  intro args' path' files' stdin' asks' hfile'
  rw [String.toList_ofList] at hfile'
  exact run_writeList asks' stdin' hout.canonical_flatMap (.inr rfl) hfile' hout'

def mixedSpans : List Span :=
  [{ traceId := .string "000000000000007b", id := .string "0000000000000001",
      shared := .bool true },
    { traceId := .string "00000000000000c8", id := .string "0000000000000009",
      name := .string "get" },
    { traceId := .string "000000000000007b", id := .string "0000000000000001",
      localEndpoint := some { serviceName := .string "web" } }]

theorem canonical_mixedSpans : ∀ s ∈ mixedSpans, s.Canonical := by
  have hcall := Span.canonical_bare (t := "000000000000007b") (i := "0000000000000001")
    (by decide +kernel) (by decide +kernel)
  have hother := Span.canonical_bare (t := "00000000000000c8") (i := "0000000000000009")
    (by decide +kernel) (by decide +kernel)
  have hendpoint : ∀ e ∈ some ({ serviceName := .string "web" } : Endpoint), e.Canonical := by
    intro e he
    rw [← Option.some.inj he]
    exact ⟨.string (by decide +kernel), .null, .null, .absent, by decide, by decide⟩
  simp only [mixedSpans, List.forall_mem_cons, List.not_mem_nil, false_implies, implies_true, and_true]
  refine ⟨?_, ?_, ?_⟩
  · exact
      { hcall with
        shared := .present true
        legible := { hcall.legible with shared := trivial } }
  · exact
      { hother with
        name := .string (by decide)
        legible := { hother.legible with name := Text.joined_ofChars _ } }
  · exact
      { hcall with
        localEndpoint := hendpoint
        legible :=
          { hcall.legible with
            localEndpoint := fun e he =>
              Option.some.inj he ▸ ⟨Text.joined_ofChars _, trivial, trivial⟩ } }

def savedPath : String := "spans.json"

/-- A directory with one file. -/
def saved (text : List Char) : Directory := [([savedPath], .file (Utf8.encode text))]

theorem read_saved (text : List Char) : (saved text).read savedPath = .ok (Utf8.encode text) := rfl

theorem asksForJson_savedPath : AsksForJson ["--format", "json", savedPath] false savedPath where
  read := ⟨false, rfl⟩
  notInput := by decide
  noArchive := by decide

theorem run_reformatted_mixedSpans :
    AsksForJson ["--format", "json", savedPath] false savedPath ∧
    (∀ s ∈ mixedSpans, s.Canonical) ∧
    (saved (Span.writeList mixedSpans)).read savedPath =
      .ok (Utf8.encode (Span.writeList mixedSpans)) ∧
    ∃ merged after text log, (∀ s ∈ merged, s.Canonical) ∧
      (mergedSpans Sink.quiet false ((groups mixedSpans).map Prod.snd)).run.run .empty =
        (.ok merged, after) ∧
      text = String.ofList (Span.writeList merged ++ ['\n']) ∧
      run ["--format", "json", savedPath] (saved (Span.writeList mixedSpans)) [] =
        ⟨.code 0, text, log, [], saved (Span.writeList mixedSpans)⟩ ∧
      ∃ log', run ["--format", "json", savedPath] (saved text.toList) [] =
        ⟨.code 0, text, log', [], saved text.toList⟩ := by
  obtain ⟨merged, after, text, log, hcanonical, hmerged, htext, hrun, hagain⟩ :=
    run_reformatted asksForJson_savedPath [] canonical_mixedSpans (read_saved _)
  exact ⟨asksForJson_savedPath, canonical_mixedSpans, read_saved _, merged, after, text, log,
    hcanonical, hmerged, htext, hrun, hagain _ _ _ [] asksForJson_savedPath (read_saved _)⟩

end Command

end SpanForest
