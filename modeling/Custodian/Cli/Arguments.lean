import Custodian.Time.Stamp

/-!
# The command line

A command names what to report on: `account ID`, `domain NAME` or `system`. Each needs the
options `--from` and `--to`; the last two also take `--page` and `--page-size`. Options may
stand anywhere behind the command, as `--name value` or `--name=value`; only the second form
admits a value that starts with a dash. A lone `--` ends the options. Arguments are read from
the left, and the first mistake or request for help decides.
-/

namespace Custodian

-- Powers are those of the core library, whatever else is in scope; for that a numeral as an
-- exponent has its type.
attribute [local instance(1100)] instPowNat

/-- What a command reports on. -/
inductive Scope where
  | account (id : String)
  | domain (name : String)
  | system
  deriving DecidableEq, Repr

/-- A command, ready to be carried out. -/
structure Command where
  subject : Scope
  start : Int64
  stop : Int64
  page : Option Nat
  pageSize : Option Nat
  deriving DecidableEq, Repr

/-- What the arguments ask for. -/
inductive Invocation where
  | report (command : Command)
  | help
  | misuse
  deriving DecidableEq, Repr

namespace Invocation

/-- How the program is used, in short. -/
def usage : String :=
  String.intercalate "\n"
    ["Custody fee and assets-under-custody reports", "",
      "Usage: custodian account <ID> --from <TIME> --to <TIME>",
      "       custodian domain <NAME> --from <TIME> --to <TIME> [--page <N>] [--page-size <N>]",
      "       custodian system --from <TIME> --to <TIME> [--page <N>] [--page-size <N>]", "",
      "Times are epoch milliseconds or RFC 3339."]

/-! ## Commands and options -/

/-- The commands. -/
inductive Verb where
  | account
  | domain
  | system
  deriving DecidableEq, Repr

/-- The command of a word. -/
def Verb.ofText? : String → Option Verb
  | "account" => some .account
  | "domain" => some .domain
  | "system" => some .system
  | _ => none

/-- What has been read behind a command. -/
structure Progress where
  name : Option String
  start : Option Int64
  stop : Option Int64
  page : Option Nat
  pageSize : Option Nat
  deriving DecidableEq, Repr

/-- Nothing read yet. -/
def Progress.empty : Progress := ⟨none, none, none, none, none⟩

/-- Reads the number of a page, or of rows. -/
def count? (text : String) : Option Nat :=
  match Text.readInt64 text with
  | .ok n => if 0 ≤ n.toInt ∧ n.toInt < 2 ^ (32 : Nat) then some n.toInt.toNat else none
  | .error _ => none

/-- Puts a value into a place that is still empty. -/
def once {α : Type} (place : Option α) (value : Option α) : Option (Option α) :=
  match place, value with
  | none, some a => some (some a)
  | _, _ => none

/-- The options that a command takes. -/
def Verb.options : Verb → List String
  | .account => ["from", "to"]
  | .domain => ["from", "to", "page", "page-size"]
  | .system => ["from", "to", "page", "page-size"]

/-- Takes in an option. Nothing if it is repeated or its value is not a proper one. -/
def Progress.withOption (p : Progress) (name value : String) : Option Progress :=
  match name with
  | "from" => (once p.start (Time.ofText? value)).map fun v => { p with start := v }
  | "to" => (once p.stop (Time.ofText? value)).map fun v => { p with stop := v }
  | "page" => (once p.page (count? value)).map fun v => { p with page := v }
  | "page-size" => (once p.pageSize (count? value)).map fun v => { p with pageSize := v }
  | _ => none

/-- Takes in a name, if the command has one and it has not been given yet. -/
def Progress.withName (p : Progress) (verb : Verb) (name : String) : Option Progress :=
  match verb with
  | .system => none
  | _ => (once p.name (some name)).map fun v => { p with name := v }

/-- The command, if nothing it needs is missing. -/
def Progress.command? (p : Progress) (verb : Verb) : Option Command := do
  let subject ←
    match verb with
    | .account => p.name.map Scope.account
    | .domain => p.name.map Scope.domain
    | .system => some .system
  return ⟨subject, ← p.start, ← p.stop, p.page, p.pageSize⟩

/-- The outcome at the end of the arguments. -/
def Progress.finish (p : Progress) (verb : Verb) : Invocation :=
  match p.command? verb with
  | some command => .report command
  | none => .misuse

/-! ## Arguments -/

/-- An argument by its form. A lone dash is a plain value. -/
inductive Argument where
  | plain (value : String)
  | endOfOptions
  | long (name : String) (value : Option String)
  | short (letters : List Char)
  deriving DecidableEq, Repr

/-- The form of an argument. -/
def Argument.ofText (text : String) : Argument :=
  match text.toList with
  | ['-', '-'] => .endOfOptions
  | '-' :: '-' :: rest =>
    match rest.span (· ≠ '=') with
    | (name, _ :: value) => .long (String.ofList name) (some (String.ofList value))
    | (name, []) => .long (String.ofList name) none
  | '-' :: c :: rest => .short (c :: rest)
  | _ => .plain text

/-- The value an argument is when it follows an option. -/
def Argument.value? (text : String) : Option String :=
  match ofText text with
  | .plain value => some value
  | _ => none

/-- Reads names only, options having ended. -/
def readNames (verb : Verb) (p : Progress) : List String → Invocation
  | [] => p.finish verb
  | name :: rest =>
    match p.withName verb name with
    | some p => readNames verb p rest
    | none => .misuse

/-- Reads what stands behind a command. -/
def readRest (verb : Verb) (p : Progress) : List String → Invocation
  | [] => p.finish verb
  | text :: rest =>
    match Argument.ofText text with
    | .plain name =>
      match p.withName verb name with
      | some p => readRest verb p rest
      | none => .misuse
    | .endOfOptions => readNames verb p rest
    | .short ('h' :: _) => .help
    | .short _ => .misuse
    | .long name (some value) =>
      if verb.options.contains name then
        match p.withOption name value with
        | some p => readRest verb p rest
        | none => .misuse
      else .misuse
    | .long name none =>
      if name = "help" then .help
      else if verb.options.contains name then
        match rest with
        | [] => .misuse
        | next :: rest =>
          match (Argument.value? next).bind (p.withOption name) with
          | some p => readRest verb p rest
          | none => .misuse
      else .misuse

/-- Whether help is there for a word. -/
def isHelpTopic (word : String) : Bool := word == "help" || (Verb.ofText? word).isSome

/-- What the arguments of a run ask for. -/
def ofArguments : List String → Invocation
  | [] => .misuse
  | text :: rest =>
    match Argument.ofText text with
    | .short ('h' :: _) => .help
    | .long "help" none => .help
    | .plain "help" =>
      match rest with
      | [] => .help
      | [topic] => if isHelpTopic topic then .help else .misuse
      | _ => .misuse
    | .plain word =>
      match Verb.ofText? word with
      | some verb => readRest verb .empty rest
      | none => .misuse
    | _ => .misuse

end Invocation

end Custodian
