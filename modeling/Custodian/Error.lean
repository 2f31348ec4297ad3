import Custodian.Decimal.Reader
import Custodian.Decimal.Text

/-!
# Errors

Everything that can go wrong, by cause: the database, the input, the custody computation,
the configuration. Each error has a wording, a short stable code, and says whether the
caller may simply try again. Some custody errors concern one asset of one account only;
those never fail a report.
-/

namespace Custodian

/-- What went wrong in the database. -/
inductive DatabaseError where
  | connectionFailed (detail : String)
  | poolCreationFailed (detail : String)
  | queryFailed (detail : String)
  | notFound (detail : String)
  | uniqueViolation (detail : String)
  | transactionFailed (detail : String)
  | migrationFailed (detail : String)
  | internal (detail : String)
  deriving DecidableEq, Repr

/-- The wording of a database error. -/
def DatabaseError.message : DatabaseError → String
  | connectionFailed t => "Failed to connect to database: " ++ t
  | poolCreationFailed t => "Failed to create database pool: " ++ t
  | queryFailed t => "Database query failed: " ++ t
  | notFound t => "Record not found: " ++ t
  | uniqueViolation t => "Unique constraint violation: " ++ t
  | transactionFailed t => "Transaction failed: " ++ t
  | migrationFailed t => "Database migration failed: " ++ t
  | internal t => "Internal database error: " ++ t

/-- Whether a second try may succeed: the database was out of reach or a query was cut
short, nothing about the request itself was wrong. -/
def DatabaseError.retryable : DatabaseError → Bool
  | connectionFailed _ => true
  | poolCreationFailed _ => true
  | queryFailed _ => true
  | transactionFailed _ => true
  | notFound _ => false
  | uniqueViolation _ => false
  | migrationFailed _ => false
  | internal _ => false

/-- What is wrong with an input. -/
inductive InputError where
  | invalidInput (detail : String)
  | missingField (name : String)
  | decimalSyntax (fault : Decimal.SyntaxFault)
  deriving DecidableEq, Repr

/-- The wording of an input error. -/
def InputError.message : InputError → String
  | invalidInput t => "Invalid input: " ++ t
  | missingField name => "Required field '" ++ name ++ "' is missing"
  | decimalSyntax fault => "Failed to parse decimal number: " ++ fault.message

/-- What went wrong in a custody computation. -/
inductive CustodyError where
  | invalidFeeFraction (fraction : Decimal)
  | billingNotFound (scope asset : String)
  | invalidWindow (start stop : Int64)
  | controlPointRegression (control settleAt : Int64)
  | invalidAccrualInterval (total elapsed : Int64)
  | accrualOverflow (operation : String)
  | ledgerUnavailable (detail : String)
  | snapshotWriteFailure (detail : String)
  deriving DecidableEq, Repr

/-- The wording of a custody error. -/
def CustodyError.message : CustodyError → String
  | invalidFeeFraction f => "Fee fraction should be in (0, 1], got " ++ f.toText
  | billingNotFound scope asset =>
    "No custody billing rate configured for asset " ++ asset ++ " in scope " ++ scope
  | invalidWindow start stop => s!"Report window is empty or inverted: from={start}, to={stop}"
  | controlPointRegression control settleAt =>
    s!"Settlement at {settleAt} precedes control point {control}"
  | invalidAccrualInterval total elapsed =>
    s!"Accrual interval must be positive, got elapsed={elapsed} over {total}"
  | accrualOverflow t => "Accrual arithmetic overflowed: " ++ t
  | ledgerUnavailable t => "Ledger mirror unavailable: " ++ t
  | snapshotWriteFailure t => "Failed to persist accrual snapshot: " ++ t

/-- The code of a custody error. -/
def CustodyError.code : CustodyError → String
  | invalidFeeFraction _ => "InvalidFeeFraction"
  | billingNotFound _ _ => "BillingNotFound"
  | invalidWindow _ _ => "InvalidWindow"
  | controlPointRegression _ _ => "ControlPointRegression"
  | invalidAccrualInterval _ _ => "InvalidAccrualInterval"
  | accrualOverflow _ => "AccrualOverflow"
  | ledgerUnavailable _ => "MirrorUnavailable"
  | snapshotWriteFailure _ => "SnapshotWriteFailure"

/-- Whether the error only takes one asset out of one account's result. -/
def CustodyError.assetScoped : CustodyError → Bool
  | invalidFeeFraction _ => true
  | billingNotFound _ _ => true
  | controlPointRegression _ _ => true
  | accrualOverflow _ => true
  | invalidWindow _ _ => false
  | invalidAccrualInterval _ _ => false
  | ledgerUnavailable _ => false
  | snapshotWriteFailure _ => false

/-- Any error. -/
inductive Error where
  | database (cause : DatabaseError)
  | input (cause : InputError)
  | custody (cause : CustodyError)
  | invalidConfigValue (detail : String)
  | repository (detail : String)
  | unexpected (detail : String)
  deriving DecidableEq, Repr

namespace Error

/-- The wording of an error. -/
def message : Error → String
  | database e => "Database operation failed: " ++ e.message
  | input e => "Input validation failed: " ++ e.message
  | custody e => "Custody calculation failed: " ++ e.message
  | invalidConfigValue t => "Invalid configuration value: " ++ t
  | repository t => "Repository error: " ++ t
  | unexpected t => "Unexpected error: " ++ t

/-- The short stable name of the kind of error. -/
def code : Error → String
  | database _ => "DatabaseError"
  | input _ => "ValidationError"
  | custody e => e.code
  | invalidConfigValue _ => "InvalidConfigValue"
  | repository _ => "RepositoryError"
  | unexpected _ => "UnexpectedError"

/-- Whether the caller may try the whole request again unchanged. -/
def retryable : Error → Bool
  | custody (.ledgerUnavailable _) => true
  | database e => e.retryable
  | _ => false

/-- Whether the error only takes one asset out of one account's result. -/
def assetScoped : Error → Bool
  | custody e => e.assetScoped
  | _ => false

/-- An input error with a wording of its own. -/
def invalidInput (detail : String) : Error := .input (.invalidInput detail)

/-- A text that should have been a decimal. -/
def ofSyntaxFault (fault : Decimal.SyntaxFault) : Error := .input (.decimalSyntax fault)

end Error

/-- Reads a decimal, a fault being an input error. -/
def readDecimal (text : String) : Except Error Decimal :=
  (Decimal.ofText text).mapError Error.ofSyntaxFault

end Custodian
