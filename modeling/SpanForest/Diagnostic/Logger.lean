import SpanForest.Diagnostic.Basic

/-!
A sink that writes to a named logger. A logger without a level of its own takes the level of the root,
which is that of a warning; a diagnostic below the level, or not above zero, makes no record.
-/

namespace SpanForest

structure Logger where
  name : String
  level : Level

structure LogRecord where
  logger : String
  level : Level
  message : Text
  traceId : Value
  spanId : Value

namespace Level

def label (level : Level) : String :=
  if level = 0 then "NOTSET"
  else if level = 10 then "DEBUG"
  else if level = 20 then "INFO"
  else if level = 30 then "WARNING"
  else if level = 40 then "ERROR"
  else if level = 50 then "CRITICAL"
  else String.join ["Level ", toString level]

end Level

namespace Logger

def defaultName : String := "trace_tree"

def rootName : String := "root"

/-- The logger of a name: no name means the default one, the empty name the root. -/
def named (name : Option String) (level : Level) : Logger :=
  match name with
  | none => ⟨defaultName, level⟩
  | some "" => ⟨rootName, level⟩
  | some name => ⟨name, level⟩

def effectiveLevel (l : Logger) : Level :=
  if l.level = 0 ∧ l.name ≠ rootName then Level.warning else l.level

def isEnabled (l : Logger) (level : Level) : Bool :=
  decide (0 < level) && decide (l.effectiveLevel ≤ level)

def log (l : Logger) (d : Diagnostic) : List LogRecord :=
  if l.isEnabled d.level then [⟨l.name, d.level, d.message, d.traceId, d.spanId⟩] else []

end Logger

def LogRecord.line (r : LogRecord) : Text :=
  Text.join [r.level.label, " ", r.logger, ": ", r.message, "\n"]

end SpanForest
