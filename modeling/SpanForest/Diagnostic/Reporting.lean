import SpanForest.Diagnostic.Basic
import SpanForest.Fault

/-!
Work that reports on the way and may end in a fault. What was reported before the fault stays reported.
-/

namespace SpanForest

abbrev Reporting (α : Type) := ExceptT Fault (StateM Delivery) α

/-- Offers a diagnostic to the sink. This never ends the work, whatever the sink does. -/
def report (sink : Sink) (d : Diagnostic) : Reporting Unit :=
  modify fun history => history.offer sink d

end SpanForest
