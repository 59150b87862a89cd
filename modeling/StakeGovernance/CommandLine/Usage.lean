import StakeGovernance.CommandLine.Argument
import StakeGovernance.Proposal.Record
import StakeGovernance.Text.Basic

/-!
# Options and operands

A command line consists of options, which have names, and operands, which have places.
The value of an option is attached to it or is the next argument. One argument can hold
several options of one letter. After a double dash there are operands only. A value is
checked when the next option or operand begins, so that of several mistakes the first one
is reported.

* `StakeGovernance.Grammar` – what **may be given**;
* `StakeGovernance.Scan` – what **was given**;
* `StakeGovernance.Grammar.scan` – **goes through** the arguments;
* `StakeGovernance.UsageError` – why they are **refused**.
-/

namespace StakeGovernance

/-- **Why arguments are refused.** Help and the version count as such reasons too. -/
inductive UsageError where
  | help
  /-- Help, since nothing was given. -/
  | helpOnMissing
  | version
  | missingCommand
  | unknownCommand
  | unknownArgument
  | missingArgument
  /-- An option without its value. -/
  | missingValue
  /-- A value that is not of its kind. -/
  | badValue
  /-- A value for an option that has none. -/
  | needlessValue
  /-- An option that is given twice, or two that exclude each other. -/
  | conflict
deriving DecidableEq, Repr

/-- The name of an error, for programs that tell errors apart. -/
def UsageError.name : UsageError → String
  | help => "DisplayHelp"
  | helpOnMissing => "DisplayHelpOnMissingArgumentOrSubcommand"
  | version => "DisplayVersion"
  | missingCommand => "MissingSubcommand"
  | unknownCommand => "InvalidSubcommand"
  | unknownArgument => "UnknownArgument"
  | missingArgument => "MissingRequiredArgument"
  | missingValue => "InvalidValue"
  | badValue => "ValueValidation"
  | needlessValue => "TooManyValues"
  | conflict => "ArgumentConflict"

/-! ### Values -/

/-- The kinds of values. -/
inductive ValueKind where
  /-- A text that is not empty. -/
  | path
  | text
  | natural
  | account
  | amount
  | support
deriving DecidableEq, Repr

/-- A value of an option or an operand. -/
inductive ArgumentValue where
  | text (value : String)
  | natural (value : Word 64)
  | account (value : Address)
  | amount (value : Amount)
  | support (value : VoteSupport)
deriving DecidableEq

/-- A result, or the error that the value is not of its kind. -/
def ValueKind.orBad {ε α : Type} (make : α → ArgumentValue) :
    Except ε α → Except UsageError ArgumentValue
  | .ok a => .ok (make a)
  | .error _ => .error .badValue

/-- The value of a text. -/
def ValueKind.read (kind : ValueKind) (text : String) : Except UsageError ArgumentValue :=
  match kind with
  | .path => if text = "" then .error .missingValue else .ok (.text text)
  | .text => .ok (.text text)
  | .natural => orBad .natural (Word.ofText text)
  | .account => orBad .account (Address.ofArgument text)
  | .amount => orBad .amount (Amount.ofText text)
  | .support => orBad .support (VoteSupport.ofText text)

/-! ### What may be given -/

/-- How often an option is given, and what it does. -/
inductive ParameterUse where
  | flag
  | once
  | repeated
  | help
  | version
deriving DecidableEq, Repr

/-- An option or an operand. -/
structure Parameter where
  name : String
  letter : Option Char
  use : ParameterUse
  kind : ValueKind
deriving DecidableEq

namespace Parameter

/-- An option with a value. -/
def option (name : String) (kind : ValueKind) (letter : Option Char) : Parameter :=
  ⟨name, letter, .once, kind⟩

/-- An option without a value. -/
def flag (name : String) : Parameter := ⟨name, none, .flag, .text⟩

/-- An operand. -/
def operand (name : String) (kind : ValueKind) : Parameter := ⟨name, none, .once, kind⟩

/-- Whether an option has a value. -/
def takesValue (s : Parameter) : Bool := s.use = .once || s.use = .repeated

end Parameter

/-- **What may be given.** -/
structure Grammar where
  options : List Parameter
  operands : List Parameter
  /-- The names of the commands that may follow. -/
  commands : List String

/-! ### What was given -/

/-- **What was given** up to some argument. -/
structure Scan where
  /-- The options and operands that are complete; a flag has no value. -/
  found : List (String × Option ArgumentValue)
  /-- What began last, with its text unless that is still to come. -/
  pending : Option (Parameter × Option String)
  /-- The operands still to come. -/
  expected : List Parameter
  /-- Whether only operands follow. -/
  trailing : Bool

namespace Scan

/-- Whether an option or an operand was given. -/
def has (s : Scan) (name : String) : Bool := s.found.any (·.1 = name)

/-- The values that were given under a name. -/
def values (s : Scan) (name : String) : List ArgumentValue :=
  (s.found.filter (·.1 = name)).filterMap (·.2)

/-- Whether the next argument is a value, unless it is an option. -/
def awaits (s : Scan) : Bool :=
  match s.pending with
  | some (_, none) => true
  | _ => false

/-- Adds what is complete. Only some options can be given again. -/
def add (s : Scan) (p : Parameter) (value : Except UsageError (Option ArgumentValue)) :
    Except UsageError Scan := do
  if p.use ≠ .repeated && s.has p.name then throw .conflict
  return { s with found := s.found ++ [(p.name, ← value)], pending := none }

/-- Adds an option or an operand with its text. -/
def addText (s : Scan) (p : Parameter) (text : String) : Except UsageError Scan :=
  s.add p (some <$> p.kind.read text)

/-- Completes what began last. -/
def settle (s : Scan) : Except UsageError Scan :=
  match s.pending with
  | none => .ok s
  | some (_, none) => .error .missingValue
  | some (p, some text) => s.addText p text

/-- Begins something. -/
def start (s : Scan) (p : Parameter) (text : Option String) : Except UsageError Scan := do
  return { (← s.settle) with pending := some (p, text) }

/-- Takes an option that has no value. -/
def takeFlag (s : Scan) (p : Parameter) : Except UsageError Scan := do
  let s ← s.settle
  match p.use with
  | .help => throw .help
  | .version => throw .version
  | _ => s.add p (.ok none)

/-- Takes an option that has a value, attached to it or not. -/
def takeOption (s : Scan) (p : Parameter) (attached : Option String) : Except UsageError Scan := do
  match attached with
  | none => s.start p none
  | some text => (← s.settle).addText p text

end Scan

namespace Grammar

/-- Takes an option by its name. -/
def takeLong (g : Grammar) (s : Scan) (argument : String) : Except UsageError Scan :=
  let (name, attached) := match splitOnce? '=' argument with
    | some (name, text) => (name, some text)
    | none => (argument, none)
  match g.options.find? (·.name = name) with
  | none => .error .unknownArgument
  | some p =>
    if p.takesValue then s.takeOption p attached
    else if attached.isSome then .error .needlessValue
    else s.takeFlag p

/-- Takes options by their letters. What follows the letter of an option with a value is
the value; an equals sign may stand between them. -/
def takeLetters (g : Grammar) (s : Scan) : List Char → Except UsageError Scan
  | [] => .ok s
  | c :: cs =>
    match g.options.find? (·.letter = some c) with
    | none => .error .unknownArgument
    | some p =>
      if p.takesValue then
        match cs with
        | [] => s.takeOption p none
        | '=' :: cs => s.takeOption p (some (String.ofList cs))
        | cs => s.takeOption p (some (String.ofList cs))
      else do g.takeLetters (← s.takeFlag p) cs

/-- Takes an operand. Where a command should stand, it is the name of none. -/
def takeOperand (g : Grammar) (s : Scan) (argument : String) : Except UsageError Scan :=
  match s.expected with
  | p :: rest => { s with expected := rest }.start p (some argument)
  | [] =>
    if g.commands.isEmpty || (s.trailing && g.commands.contains argument) then
      .error .unknownArgument
    else .error .unknownCommand

/-- Takes an argument that is no command. -/
def take (g : Grammar) (s : Scan) (argument : String) : Except UsageError Scan :=
  if s.trailing then g.takeOperand s argument
  else
    match argument.toList with
    | ['-', '-'] => .ok { s with trailing := true }
    | '-' :: '-' :: cs => g.takeLong s (String.ofList cs)
    | '-' :: c :: cs => g.takeLetters s (c :: cs)
    | _ =>
      match s.pending with
      | some (p, none) => .ok { s with pending := some (p, some argument) }
      | _ => g.takeOperand s argument

/-- **Goes through the arguments** up to a command. The result is what was given, and the
command with the arguments after it. -/
def scanFrom (g : Grammar) (s : Scan) :
    List String → Except UsageError (Scan × Option (String × List String))
  | [] => .ok (s, none)
  | a :: rest =>
    if !s.trailing && !s.awaits && g.commands.contains a then .ok (s, some (a, rest))
    else do g.scanFrom (← g.take s a) rest

/-- **Goes through the arguments** from the first one. -/
def scan (g : Grammar) (arguments : List String) :
    Except UsageError (Scan × Option (String × List String)) :=
  g.scanFrom ⟨[], none, g.operands, false⟩ arguments

end Grammar

end StakeGovernance
