import SpanForest.Command.Help
import SpanForest.Command.Options
import SpanForest.Diagnostic.Logger
import SpanForest.Span.Stream
import SpanForest.Span.Writer
import SpanForest.Trace.Assembly
import SpanForest.Trace.Grouping

/-!
The command line as a function of its words, the working directory and standard input. All output is
formed before any of it is written. A fault of a file that users are told about ends with code one;
wrong words end with code two; any other fault ends the run as it is. An output that cannot be encoded
is found out only when its file is already open, and that file stays empty.
-/

namespace SpanForest.Command

inductive Ending where
  | code (code : Nat)
  | fault (fault : Fault)

/-- All that a run leaves behind. -/
structure Result where
  ending : Ending
  stdout : String
  stderr : String
  warnings : List LineWarning
  files : Directory

/-- Work on one trace after the other, with the results in one list. -/
def collect {α : Type} (work : List Span → Reporting (List α)) :
    List (List Span) → Reporting (List α)
  | [] => pure []
  | spans :: rest => do
      let here ← work spans
      let others ← collect work rest
      pure (here ++ others)

def traceOutput (sink : Sink) (noMerge : Bool) (spans : List Span) : Reporting Text := do
  let tree ← Trace.buildTree sink (!noMerge) spans
  tree.draw Drawing.defaultIndent

def treeOutput (sink : Sink) (noMerge : Bool) : List (List Span) → Reporting Text :=
  collect (traceOutput sink noMerge)

def repairedTrace (sink : Sink) (noMerge : Bool) (spans : List Span) : Reporting (List Span) :=
  if noMerge then pure spans else (·.spans spans) <$> Trace.merge sink spans

def mergedSpans (sink : Sink) (noMerge : Bool) : List (List Span) → Reporting (List Span) :=
  collect (repairedTrace sink noMerge)

def output (sink : Sink) (request : Request) (traces : List (List Span)) :
    Reporting Text := do
  match request.format with
  | .tree => treeOutput sink request.noMerge traces
  | .json =>
      let spans ← mergedSpans sink request.noMerge traces
      pure (Text.ofChars (Span.writeList spans ++ ['\n']))

def logLines (request : Request) (delivery : Delivery) : String :=
  if request.verbose then
    let logger := Logger.named none Level.debug
    Text.escaped (Text.join ((delivery.offered.flatMap logger.log).map LogRecord.line))
  else ""

structure Rendering where
  text : Text
  spanCount : Nat
  traceCount : Nat

/-- All that a run does before it writes: a rendering or a fault, what goes to standard error on the
way, and the warnings of the reader. -/
structure Produced where
  outcome : Except Fault Rendering
  log : String
  warnings : List LineWarning

/-- The trace ids of spans that were read are strings, so the spans can be grouped as they are. -/
def produce (request : Request) (source : TextSource) : Produced :=
  let reading := readSource source
  match reading.outcome with
  | .error fault => ⟨.error fault, "", reading.warnings⟩
  | .ok spans =>
      let traces := (Trace.groups spans).map Prod.snd
      let (outcome, delivery) := (output Sink.quiet request traces).run.run Delivery.empty
      ⟨outcome.map fun text => ⟨text, spans.length, traces.length⟩, logLines request delivery,
        reading.warnings⟩

def writtenLine (path : String) (r : Rendering) : String :=
  String.join
    ["Wrote ", path, " (", toString r.spanCount, " spans, ", toString r.traceCount, " traces)\n"]

def faultLine (fault : FileFault) : String := String.join ["Error: ", fault.message, "\n"]

def endWith (files : Directory) (p : Produced) (fault : Fault) : Result :=
  match fault with
  | .file cause =>
      if cause.isReported then ⟨.code 1, "", p.log ++ faultLine cause, p.warnings, files⟩
      else ⟨.fault fault, "", p.log, p.warnings, files⟩
  | _ => ⟨.fault fault, "", p.log, p.warnings, files⟩

def deliver (files : Directory) (request : Request) (p : Produced) (r : Rendering) : Result :=
  match request.output with
  | .standardOutput =>
      match r.text.chars? with
      | some cs => ⟨.code 0, String.ofList cs, p.log, p.warnings, files⟩
      | none => endWith files p (.file (.unencodable (.locate r.text)))
  | .nowhere => endWith files p (.file .noPath)
  | .file path =>
      match Utf8.encodeText r.text with
      | .ok bytes =>
          match files.write path bytes with
          | .error cause => endWith files p (.file cause)
          | .ok written => ⟨.code 0, "", p.log ++ writtenLine path r, p.warnings, written⟩
      | .error flaw =>
          match files.write path [] with
          | .error cause => endWith files p (.file cause)
          | .ok emptied => endWith emptied p (.file (.unencodable flaw))

def runRequest (files : Directory) (stdin : List Char) (request : Request) : Result :=
  let p := produce request (openInput files stdin request.input)
  match p.outcome with
  | .error fault => endWith files p fault
  | .ok r => deliver files request p r

def run (args : List String) (files : Directory) (stdin : List Char) : Result :=
  match Options.read args with
  | .ok request => runRequest files stdin request
  | .error .showVersion => ⟨.code 0, versionLine, "", [], files⟩
  | .error .showHelp => ⟨.code 0, helpText, "", [], files⟩
  | .error (.usage e) => ⟨.code 2, "", usageText e, [], files⟩

end SpanForest.Command
