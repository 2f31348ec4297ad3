import Custodian.Error

/-!
# Failures

What a whole command fails with: an error of the engine, or a fault from outside it that is
only a chain of explanations, the outermost first. Either is shown to the caller as an
envelope of code, message and whether to try again.
-/

namespace Custodian

/-- Why a command failed. -/
inductive Failure where
  | engine (cause : Error)
  | outside (explanations : List String)
  deriving DecidableEq, Repr

/-- What the caller is told about a failure. -/
structure Envelope where
  code : String
  message : String
  retryable : Bool
  deriving DecidableEq, Repr

/-- The envelope of an error. -/
def Error.envelope (e : Error) : Envelope := ⟨e.code, e.message, e.retryable⟩

namespace Failure

/-- The whole explanation in one line. -/
def message : Failure → String
  | engine cause => cause.message
  | outside explanations => String.intercalate ": " explanations

/-- The envelope of a failure. Faults from outside have one code for all of them and are not
worth trying again. -/
def envelope : Failure → Envelope
  | engine cause => cause.envelope
  | outside explanations => ⟨"UnexpectedError", message (.outside explanations), false⟩

/-- The failure seen from further out. An error of the engine stays recognisable behind any
explanation. -/
def within (explanation : String) : Failure → Failure
  | engine cause => .engine cause
  | outside explanations => .outside (explanation :: explanations)

end Failure

end Custodian
