/-!
# Diagnostics

Messages to whoever started a round.  They never stop it: a note says what is done, an error what
was refused.
-/

namespace Augment

/-- How grave a diagnostic is. -/
inductive Severity where
  | note
  | error
deriving DecidableEq, Repr

namespace Severity

/-- The word for the severity in messages. -/
def text : Severity → String
  | note => "note"
  | error => "error"

/-- The graver of two severities. -/
instance : Max Severity where
  max
    | error, _ => error
    | note, other => other

end Severity

/-- A message. -/
structure Diagnostic where
  severity : Severity
  message : String
deriving DecidableEq, Repr

namespace Diagnostic

/-- A message that says what is done. -/
def note (message : String) : Diagnostic := ⟨.note, message⟩

/-- A message that says what was refused. -/
def error (message : String) : Diagnostic := ⟨.error, message⟩

/-- The diagnostic as one text. -/
def text (diagnostic : Diagnostic) : String :=
  diagnostic.severity.text ++ ": " ++ diagnostic.message

/-- Whether the diagnostic is an error. -/
def isError (diagnostic : Diagnostic) : Bool :=
  diagnostic.severity = .error

/-- The gravest severity in a list, if the list is not empty. -/
def gravest? (diagnostics : List Diagnostic) : Option Severity :=
  (diagnostics.map severity).max?

end Diagnostic

end Augment
