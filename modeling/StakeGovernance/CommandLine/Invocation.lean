import StakeGovernance.CommandLine.Argument
import StakeGovernance.CommandLine.Usage

/-!
# Invocations

Every invocation names one command. The options that say where the settings are, and
what to make of them, may stand before the command or after it; what stands after it
counts.

* `StakeGovernance.Task` – what is **to be done**;
* `StakeGovernance.Invocation` – a task, and **the options** of every invocation;
* `StakeGovernance.Invocation.ofArguments` – the **invocation of arguments**.
-/

namespace StakeGovernance

/-- **What is to be done.** -/
inductive Task where
  | setUp (force : Bool)
  | stake (owner : Address) (amount : Amount) (lock : LockEnd) (delegate : Option Address)
  | extend (owner : Address) (bucket : Timestamp) (lock : LockEnd) (amount : Amount)
  | withdraw (owner : Address) (bucket : Timestamp)
  | delegate (owner target : Address)
  | propose (proposer : Address) (description : String) (actions : List String)
  | vote (voter : Address) (id : ProposalId) (support : VoteSupport)
  | queue (id : ProposalId)
  | execute (id : ProposalId)
  | cancel (caller : Address) (id : ProposalId)
  | prune
  | power (account : Address) (point : Option Timestamp)
  | status (proposal : Option ProposalId)
deriving DecidableEq

/-- **A task, and the options of every invocation.** -/
structure Invocation where
  /-- The file of the settings. -/
  settingsPath : Option String
  dataDir : Option String
  logLevel : Option String
  logJson : Bool
  /-- The time at which everything happens. -/
  now : Option Timestamp
  task : Task
deriving DecidableEq

/-! ### The grammar -/

namespace Grammar

/-- The options of every command. -/
def common : List Parameter :=
  [.option "config" .path (some 'c'), .option "data-dir" .path (some 'd'),
    .option "log-level" .text (some 'l'), .flag "log-json", .option "now" .natural none,
    ⟨"help", some 'h', .help, .text⟩]

/-- The options that say when a lock ends. -/
def lockEnd : List Parameter := [.option "until" .natural none, .option "days" .natural none]

/-- A command with options and operands of its own. -/
def ofCommand (options operands : List Parameter) : Grammar := ⟨options ++ common, operands, []⟩

/-- The commands. -/
def commandTable : List (String × Grammar) :=
  [("init", ofCommand [.flag "force"] []),
    ("stake", ofCommand (.option "delegate" .account none :: lockEnd)
      [.operand "owner" .account, .operand "amount" .amount]),
    ("extend", ofCommand (.option "amount" .amount none :: lockEnd)
      [.operand "owner" .account, .operand "bucket" .natural]),
    ("withdraw", ofCommand [] [.operand "owner" .account, .operand "bucket" .natural]),
    ("delegate", ofCommand [] [.operand "owner" .account, .operand "to" .account]),
    ("propose", ofCommand
      [.option "description" .text (some 'm'), ⟨"action", some 'a', .repeated, .text⟩]
      [.operand "proposer" .account]),
    ("vote", ofCommand []
      [.operand "voter" .account, .operand "id" .natural, .operand "support" .support]),
    ("queue", ofCommand [] [.operand "id" .natural]),
    ("execute", ofCommand [] [.operand "id" .natural]),
    ("cancel", ofCommand [] [.operand "caller" .account, .operand "id" .natural]),
    ("prune", ofCommand [] []),
    ("power", ofCommand [.option "at" .natural none] [.operand "account" .account]),
    ("status", ofCommand [.option "proposal" .natural none] [])]

/-- What may stand before a command. -/
def main : Grammar where
  options := common ++ [⟨"version", some 'V', .version, .text⟩]
  operands := []
  commands := commandTable.map (·.1) ++ ["help"]

end Grammar

/-! ### Values -/

namespace Scan

/-- The text that was given under a name. -/
def text? (s : Scan) (name : String) : Option String :=
  (s.values name).findSome? fun
    | .text value => some value
    | _ => none

/-- The number that was given under a name. -/
def natural? (s : Scan) (name : String) : Option (Word 64) :=
  (s.values name).findSome? fun
    | .natural value => some value
    | _ => none

/-- The account that was given under a name. -/
def account? (s : Scan) (name : String) : Option Address :=
  (s.values name).findSome? fun
    | .account value => some value
    | _ => none

/-- The amount that was given under a name. -/
def amount? (s : Scan) (name : String) : Option Amount :=
  (s.values name).findSome? fun
    | .amount value => some value
    | _ => none

/-- The vote that was given under a name. -/
def support? (s : Scan) (name : String) : Option VoteSupport :=
  (s.values name).findSome? fun
    | .support value => some value
    | _ => none

/-- The texts that were given under a name. -/
def texts (s : Scan) (name : String) : List String :=
  (s.values name).filterMap fun
    | .text value => some value
    | _ => none

/-- The end of a lock. -/
def lockEnd? (s : Scan) : Option LockEnd :=
  if s.has "until" || s.has "days" then some ⟨s.natural? "until", s.natural? "days"⟩ else none

/-- The actions of a proposal; there is at least one. -/
def actions? (s : Scan) : Option (List String) :=
  if s.has "action" then some (s.texts "action") else none

/-- The task of a command, if nothing is missing. -/
def task? (s : Scan) : String → Option Task
  | "init" => some (.setUp (s.has "force"))
  | "stake" => do
    return .stake (← s.account? "owner") (← s.amount? "amount") (← s.lockEnd?)
      (s.account? "delegate")
  | "extend" => do
    return .extend (← s.account? "owner") (← s.natural? "bucket") (← s.lockEnd?)
      ((s.amount? "amount").getD .zero)
  | "withdraw" => do return .withdraw (← s.account? "owner") (← s.natural? "bucket")
  | "delegate" => do return .delegate (← s.account? "owner") (← s.account? "to")
  | "propose" => do
    return .propose (← s.account? "proposer") ((s.text? "description").getD "") (← s.actions?)
  | "vote" => do return .vote (← s.account? "voter") (← s.natural? "id") (← s.support? "support")
  | "queue" => do return .queue (← s.natural? "id")
  | "execute" => do return .execute (← s.natural? "id")
  | "cancel" => do return .cancel (← s.account? "caller") (← s.natural? "id")
  | "prune" => some .prune
  | "power" => do return .power (← s.account? "account") (s.natural? "at")
  | "status" => some (.status (s.natural? "proposal"))
  | _ => none

end Scan

namespace Invocation

/-! ### Invocations -/

/-- What is told about the help for a command: help, if there is such a command. -/
def helpAbout : List String → UsageError
  | [] => .help
  | [name] => if Grammar.main.commands.contains name then .help else .unknownCommand
  | _ => .unknownCommand

/-- Goes through the arguments of a command. -/
def scanCommand (g : Grammar) (arguments : List String) : Except UsageError Scan := do
  let (s, _) ← g.scan arguments
  let s ← s.settle
  if s.has "until" && s.has "days" then throw .conflict
  return s

/-- What was given, before the command and after it. -/
def ofScans (before after : Scan) (task : Task) : Invocation where
  settingsPath := after.text? "config" <|> before.text? "config"
  dataDir := after.text? "data-dir" <|> before.text? "data-dir"
  logLevel := after.text? "log-level" <|> before.text? "log-level"
  logJson := after.has "log-json" || before.has "log-json"
  now := after.natural? "now" <|> before.natural? "now"
  task

/-- The invocation of a command and the arguments around it. -/
def ofCommand (before : Scan) (name : String) (arguments : List String) :
    Except UsageError Invocation := do
  match Grammar.commandTable.lookup name with
  | none => throw (helpAbout arguments)
  | some g =>
    let after ← scanCommand g arguments
    match after.task? name with
    | none => throw .missingArgument
    | some task => return ofScans (← before.settle) after task

/-- **The invocation of arguments.** -/
def ofArguments (arguments : List String) : Except UsageError Invocation := do
  let (before, command) ← Grammar.main.scan arguments
  match command with
  | some (name, rest) => ofCommand before name rest
  | none =>
    let before ← before.settle
    throw (if before.found.isEmpty then .helpOnMissing else .missingCommand)

end Invocation

end StakeGovernance
