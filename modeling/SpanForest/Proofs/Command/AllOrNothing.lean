import SpanForest.Proofs.Command.Reformatted
import SpanForest.Proofs.Files.Directory

/-!
What a run of the command leaves behind. Either all traces are shown, on standard output or as the
whole of one file, and nothing else is touched; or nothing is printed and no file is made or
changed, whatever went wrong on the way. One way to go wrong is noticed too late: half of a
surrogate pair in a drawing has no code in UTF-8, and by then the file for it is open. The directory
is all there is of the file system.
-/

namespace SpanForest.Command

/-- Nothing is printed, and the directory is as it was. -/
structure Untouched (files : Directory) (r : Result) : Prop where
  stdout : r.stdout = ""
  files : r.files = files

inductive Delivered (files : Directory) (text : List Char) (r : Result) : Target → Prop
  | printed (stdout : r.stdout = String.ofList text) (kept : r.files = files) :
      Delivered files text r .standardOutput
  | saved {path : String} (stdout : r.stdout = "")
      (written : files.OnlyWritten r.files path (Utf8.encode text)) :
      Delivered files text r (.file path)

/-- A run that has shown all traces of its input. Words that ask for the version or for help are answered
without a look at the input. -/
def Complete (args : List String) (files : Directory) (stdin : List Char) (r : Result) : Prop :=
  match Options.read args with
  | .ok request => ∃ spans text, (readPath files stdin request.input).outcome = .ok spans ∧
      Renders request.noMerge ((Trace.groups spans).map Prod.snd) (Text.ofChars text) request.format ∧
      Delivered files text r request.output
  | .error stop => (stop = .showVersion ∨ stop = .showHelp) ∧ r.files = files

/-- A run ends with code zero and has shown all traces in the one place asked for, or it ends otherwise
and has left everything as it was. -/
def AllOrNothing (args : List String) (files : Directory) (stdin : List Char) (r : Result) : Prop :=
  r.ending = .code 0 ∧ Complete args files stdin r ∨ r.ending ≠ .code 0 ∧ Untouched files r

/-- All traces are to be shown in a file that can be opened, and the text that shows them has half a
surrogate pair in it. `opened` is the directory when the file is open and nothing is written yet. -/
def Overreaches (args : List String) (files : Directory) (stdin : List Char) (opened : Directory) :
    Prop :=
  ∃ request path spans text, Options.read args = .ok request ∧ request.output = .file path ∧
    (readPath files stdin request.input).outcome = .ok spans ∧
    Renders request.noMerge ((Trace.groups spans).map Prod.snd) text request.format ∧
    text.hasHalf = true ∧ files.write path [] = .ok opened

/-- A run that failed with its file open. -/
structure Stranded (opened : Directory) (r : Result) : Prop where
  ending : ∃ flaw, r.ending = .fault (.file (.unencodable flaw))
  stdout : r.stdout = ""
  files : r.files = opened

theorem Stranded.ending_ne {opened : Directory} {r : Result} (h : Stranded opened r) :
    r.ending ≠ .code 0 := by
  obtain ⟨flaw, hending⟩ := h.ending
  simp [hending]

theorem endWith_spec (files : Directory) (p : Produced) (fault : Fault) :
    (endWith files p fault).ending ≠ .code 0 ∧ Untouched files (endWith files p fault) := by
  unfold endWith
  split
  · split
    · exact ⟨by simp, rfl, rfl⟩
    · exact ⟨by simp, rfl, rfl⟩
  · exact ⟨by simp, rfl, rfl⟩

theorem encodeText_of_hasHalf {t : Text} (h : t.hasHalf = true) :
    Utf8.encodeText t = .error (.locate t) := by
  rw [Utf8.encodeText, (Text.chars?_eq_none_iff t).2 h]

section

variable (files : Directory) (request : Request) (p : Produced) {r : Rendering}

theorem deliver_chars {cs : List Char} (htext : r.text = Text.ofChars cs) :
    (deliver files request p r).ending = .code 0 ∧
        Delivered files cs (deliver files request p r) request.output ∨
      (deliver files request p r).ending ≠ .code 0 ∧ Untouched files (deliver files request p r) := by
  unfold deliver
  cases request.output with
  | standardOutput =>
      rw [htext, Text.chars?_ofChars]
      exact .inl ⟨rfl, .printed rfl rfl⟩
  | nowhere => exact .inr (endWith_spec files p _)
  | file path =>
      have hencode : Utf8.encodeText r.text = .ok (Utf8.encode cs) := by
        rw [Utf8.encodeText, htext, Text.chars?_ofChars]
      dsimp only
      rw [hencode]
      dsimp only
      cases hwrite : files.write path (Utf8.encode cs) with
      | error cause => exact .inr (endWith_spec files p _)
      | ok written => exact .inl ⟨rfl, .saved rfl (Directory.onlyWritten_of_write hwrite)⟩

theorem deliver_hasHalf (hhalf : r.text.hasHalf = true) :
    (deliver files request p r).ending ≠ .code 0 ∧ Untouched files (deliver files request p r) ∨
      ∃ path opened, request.output = .file path ∧ files.write path [] = .ok opened ∧
        Stranded opened (deliver files request p r) := by
  unfold deliver
  cases request.output with
  | standardOutput =>
      rw [(Text.chars?_eq_none_iff r.text).2 hhalf]
      exact .inl (endWith_spec files p _)
  | nowhere => exact .inl (endWith_spec files p _)
  | file path =>
      dsimp only
      rw [encodeText_of_hasHalf hhalf]
      dsimp only
      cases hwrite : files.write path [] with
      | error cause => exact .inl (endWith_spec files p _)
      | ok opened => exact .inr ⟨path, opened, rfl, hwrite, ⟨_, rfl⟩, rfl, rfl⟩

end

variable {args : List String} {files : Directory} {stdin : List Char}

theorem run_stranded {opened : Directory} (h : Overreaches args files stdin opened) :
    Stranded opened (run args files stdin) := by
  obtain ⟨request, path, spans, text, hread, houtput, hspans, hrenders, hhalf, hwrite⟩ := h
  obtain ⟨r, houtcome, rfl⟩ := (renders_iff_produce request _ text).1 ⟨spans, hspans, hrenders⟩
  have hrun : run args files stdin =
      deliver files request (produce request (openInput files stdin request.input)) r := by
    rw [run, hread]
    dsimp only
    rw [runRequest, houtcome]
  rw [hrun, deliver, houtput]
  dsimp only
  rw [encodeText_of_hasHalf hhalf]
  dsimp only
  rw [hwrite]
  exact ⟨⟨_, rfl⟩, rfl, rfl⟩

theorem allOrNothing_of_not_overreaches (h : ∀ opened, ¬ Overreaches args files stdin opened) :
    AllOrNothing args files stdin (run args files stdin) := by
  rw [AllOrNothing, Complete, run]
  cases hread : Options.read args with
  | error stop =>
      cases stop with
      | showVersion => exact .inl ⟨rfl, .inl rfl, rfl⟩
      | showHelp => exact .inl ⟨rfl, .inr rfl, rfl⟩
      | usage e => exact .inr ⟨by simp, rfl, rfl⟩
  | ok request =>
      dsimp only
      rw [runRequest]
      cases houtcome : (produce request (openInput files stdin request.input)).outcome with
      | error fault => exact .inr (endWith_spec files _ fault)
      | ok r =>
          let p := produce request (openInput files stdin request.input)
          obtain ⟨spans, hspans, hrenders⟩ := (renders_iff_produce request _ r.text).2 ⟨r, houtcome, rfl⟩
          -- without a half the text is encoded before the file is opened, and only opening can fail
          cases hchars : r.text.chars? with
          | some cs =>
              have htext := (Text.chars?_eq_some_iff r.text cs).1 hchars
              rcases deliver_chars files request p htext with ⟨hending, hdelivered⟩ | hfailed
              · exact .inl ⟨hending, spans, cs, hspans, htext ▸ hrenders, hdelivered⟩
              · exact .inr hfailed
          | none =>
              have hhalf := (Text.chars?_eq_none_iff r.text).1 hchars
              rcases deliver_hasHalf files request p hhalf with
                hfailed | ⟨path, opened, houtput, hwrite, -⟩
              · exact .inr hfailed
              · refine absurd ?_ (h opened)
                exact ⟨request, path, spans, r.text, hread, houtput, hspans, hrenders, hhalf, hwrite⟩

/-- A run is all or nothing exactly if no file that is opened for a text with half a surrogate pair is
made or emptied by that; in such a run nothing is shown, and that file is all that is touched. -/
theorem run_allOrNothing_iff (args : List String) (files : Directory) (stdin : List Char) :
    (AllOrNothing args files stdin (run args files stdin) ↔
        ∀ opened, Overreaches args files stdin opened → opened = files) ∧
      ∀ opened, Overreaches args files stdin opened → Stranded opened (run args files stdin) := by
  refine ⟨⟨fun h opened hover => ?_, fun h => ?_⟩, fun opened => run_stranded⟩
  · have hstranded := run_stranded hover
    rcases h with ⟨hzero, -⟩ | ⟨-, huntouched⟩
    · exact absurd hzero hstranded.ending_ne
    · exact hstranded.files.symm.trans huntouched.files
  · by_cases hover : ∃ opened, Overreaches args files stdin opened
    · obtain ⟨opened, hover⟩ := hover
      have hstranded := run_stranded hover
      have hfiles : (run args files stdin).files = files := hstranded.files.trans (h opened hover)
      exact .inr ⟨hstranded.ending_ne, hstranded.stdout, hfiles⟩
    · exact allOrNothing_of_not_overreaches (not_exists.1 hover)

/-- A span whose name is half a surrogate pair. -/
def halfLine : List Char :=
  "[\x7b\"traceId\":\"1\",\"id\":\"1\",\"name\":\"\\ud800\"\x7d]".toList

/-- The new file is there, with nothing in it. -/
theorem not_allOrNothing_halfLine :
    (run [savedPath, "-o", "out.txt"] (saved halfLine) []).files =
        saved halfLine ++ [(["out.txt"], .file [])] ∧
      ¬ AllOrNothing [savedPath, "-o", "out.txt"] (saved halfLine) []
        (run [savedPath, "-o", "out.txt"] (saved halfLine) []) := by
  have hfiles : (run [savedPath, "-o", "out.txt"] (saved halfLine) []).files =
      saved halfLine ++ [(["out.txt"], .file [])] := by decide +kernel
  have hfault : (match (run [savedPath, "-o", "out.txt"] (saved halfLine) []).ending with
      | .code _ => true
      | .fault _ => false) = false := by decide +kernel
  refine ⟨hfiles, ?_⟩
  rintro (⟨hzero, -⟩ | ⟨-, huntouched⟩)
  · rw [hzero] at hfault
    cases hfault
  · have hsame := huntouched.files
    rw [hfiles] at hsame
    simp at hsame

/-- A file may be read and written in one run. -/
example : (run ["--format", "json", "-o", savedPath, savedPath]
      (saved "\x7b\"traceId\":\"1\",\"id\":\"2\"\x7d".toList) []).files =
    saved ("[\x7b\"traceId\":\"0000000000000001\",".toList ++
      "\"id\":\"0000000000000002\"\x7d]\n".toList) := by
  decide +kernel

end SpanForest.Command
