import CStack.Source.Span
import CStack.Diagnostic.Code

/-!
Diagnostics and the report that collects them.

A diagnostic is a code, a message and labelled spans; its first label's span is its primary
span. The report keeps diagnostics in the order they arrive, after two filters: a diagnostic
equal in code, primary span and message to an earlier one is dropped (only when deduplication
is on, and never for one whose primary span is `0..0` or that has no label), and once the error
limit is reached later ones are only counted as suppressed. The key of a dropped duplicate is
remembered even when the limit then suppresses it.
-/

namespace CStack

/-- A span with a note. -/
structure Label where
  span : Span
  text : String
  deriving DecidableEq, Repr

/-- One compile error. -/
structure Diagnostic where
  code : Code
  message : String
  labels : List Label
  deriving DecidableEq, Repr

namespace Diagnostic

/-- The diagnostic of a code at a span, labelled with the code's description. -/
def atSpan (code : Code) (span : Span) (message : String) : Diagnostic :=
  ⟨code, message, [⟨span, code.description⟩]⟩

/-- The span of the first label. -/
def primarySpan? (d : Diagnostic) : Option Span := d.labels.head?.map (·.span)

/-- The printed form: `error [CODE]: message`, then a line `  --> start..end: text` per label. -/
def text (d : Diagnostic) : String :=
  d.labels.foldl (fun acc l => acc ++ "\n  --> " ++ l.span.text ++ ": " ++ l.text)
    ("error [" ++ d.code.text ++ "]: " ++ d.message)

/-- What two diagnostics must share to count as the same report. -/
def key? (d : Diagnostic) : Option (Code × Span × String) :=
  match d.primarySpan? with
  | some s => if s.isNone then none else some (d.code, s, d.message)
  | none => none

end Diagnostic

/-- How a report filters: at most `errorLimit` kept (none when `0`), and whether repeated
diagnostics are dropped. -/
structure ReportConfig where
  errorLimit : Nat := 0
  deduplicate : Bool := true
  deriving DecidableEq, Repr

/-- The diagnostics of a compilation, with the counts the filters leave. -/
structure Report where
  config : ReportConfig := {}
  diagnostics : Array Diagnostic := #[]
  seen : List (Code × Span × String) := []
  errorCount : Nat := 0
  suppressed : Nat := 0
  deriving Repr

namespace Report

/-- An empty report with a configuration. -/
def empty (config : ReportConfig) : Report := { config }

/-- Keeps a diagnostic, or counts it as suppressed once the limit is reached. -/
def accept (r : Report) (d : Diagnostic) : Report :=
  if r.config.errorLimit > 0 && r.errorCount ≥ r.config.errorLimit then
    { r with suppressed := r.suppressed + 1 }
  else
    { r with errorCount := r.errorCount + 1, diagnostics := r.diagnostics.push d }

/-- Files a diagnostic: dropped if it repeats an earlier key, counted as suppressed past the
limit, kept otherwise. -/
def add (r : Report) (d : Diagnostic) : Report :=
  let dedupKey := if r.config.deduplicate then d.key? else none
  match dedupKey with
  | some k =>
    if r.seen.contains k then r
    else { r with seen := k :: r.seen }.accept d
  | none => r.accept d

/-- Files the diagnostic of a code at a span. -/
def error (r : Report) (code : Code) (span : Span) (message : String) : Report :=
  r.add (Diagnostic.atSpan code span message)

/-- Whether any diagnostic was filed and not dropped as a repeat. -/
def hasErrors (r : Report) : Bool := r.errorCount > 0 || r.suppressed > 0

/-- How many kept diagnostics carry a code. -/
def countOf (r : Report) (c : Code) : Nat := (r.diagnostics.filter (·.code == c)).size

/-- The number of errors that make compilation fail: kept and suppressed ones. -/
def failures (r : Report) : Nat := r.errorCount + r.suppressed

end Report

/-- The text standing for "at least one error was emitted". -/
def errorsEmittedText : String := "error(s) emitted"

end CStack
