import StakeGovernance.Protocol.Config

/-!
# Settings

All that an operator decides before a protocol is set up: where its store is, the rules
of the protocol, the treasury, who holds tokens at the beginning, and what is logged.

* `StakeGovernance.Settings` – the **settings**;
* `StakeGovernance.Settings.default` – those that are used where there are no others;
* `StakeGovernance.Settings.toJson`, `StakeGovernance.Settings.ofJson?` – settings as
  **data**.
-/

namespace StakeGovernance

/-- What an account holds at the beginning. -/
structure Allocation where
  account : Address
  amount : Amount
deriving DecidableEq

namespace Allocation

/-- An allocation as JSON. -/
def toJson (a : Allocation) : Json :=
  .object [("account", a.account.toJson), ("amount", Amount.toJson a.amount)]

instance : ToJson Allocation := ⟨toJson⟩

/-- The allocation that a JSON value stands for. -/
def ofJson? (v : Json) : Option Allocation := do
  let [account, amount] ← v.parts? ["account", "amount"] | none
  return ⟨← Address.ofJson? account, ← Amount.ofJson? amount⟩

instance : FromJson Allocation := ⟨ofJson?⟩

end Allocation

/-- The treasury. Its first version pays without a limit, its second one refuses payments
above a limit. -/
structure TreasurySettings where
  /-- Whether there is a treasury. -/
  enabled : Bool
  /-- The target of proposals that make payments. -/
  capability : Address
  /-- The account that pays. -/
  account : Address
  /-- What the account holds at the beginning. -/
  initialBalance : Amount
  /-- The limit of the second version. -/
  perTransferCap : Amount
deriving DecidableEq

namespace TreasurySettings

/-- An empty treasury with its usual addresses. -/
def default : TreasurySettings where
  enabled := true
  capability := .derive (utf8Bytes "lockgov/capability/treasury")
  account := .derive (utf8Bytes "lockgov/treasury")
  initialBalance := .zero
  perTransferCap := Word.ofNat 100000

/-- The settings of a treasury as JSON. -/
def toJson (t : TreasurySettings) : Json :=
  .object [("enabled", .bool t.enabled), ("capability", t.capability.toJson),
    ("account", t.account.toJson), ("initial_balance", Amount.toJson t.initialBalance),
    ("per_transfer_cap", Amount.toJson t.perTransferCap)]

instance : ToJson TreasurySettings := ⟨toJson⟩

/-- The settings of a treasury that a JSON value stands for. -/
def ofJson? (v : Json) : Option TreasurySettings := do
  let [enabled, capability, account, balance, cap] ←
    v.parts? ["enabled", "capability", "account", "initial_balance", "per_transfer_cap"] | none
  return ⟨← enabled.bool?, ← Address.ofJson? capability, ← Address.ofJson? account,
    ← Amount.ofJson? balance, ← Amount.ofJson? cap⟩

instance : FromJson TreasurySettings := ⟨ofJson?⟩

end TreasurySettings

/-- What is logged, and how. -/
structure LogSettings where
  level : String
  file : Option String
  format : String
deriving DecidableEq

namespace LogSettings

/-- Plain messages about what matters, into no file. -/
def default : LogSettings := ⟨"info", none, "pretty"⟩

/-- The settings of a log as JSON. -/
def toJson (l : LogSettings) : Json :=
  .object [("level", .string l.level), ("log_file", Json.ofOption .string l.file),
    ("format", .string l.format)]

instance : ToJson LogSettings := ⟨toJson⟩

/-- The settings of a log that a JSON value stands for. The file may be missing. -/
def ofJson? (v : Json) : Option LogSettings := do
  let [some level, file, some format] ← v.record? ["level", "log_file", "format"] | none
  return ⟨← level.text?, ← Json.optional? Json.text? file, ← format.text?⟩

instance : FromJson LogSettings := ⟨ofJson?⟩

end LogSettings

/-- **The settings.** -/
structure Settings where
  name : String
  /-- The directory of the store. -/
  dataDir : String
  protocol : ProtocolConfig
  treasury : TreasurySettings
  /-- Who holds tokens at the beginning. -/
  genesis : List Allocation
  logging : LogSettings
deriving DecidableEq

namespace Settings

/-- The settings that are used where there are no others. -/
def default : Settings where
  name := "lockgov"
  dataDir := "./data"
  protocol := .default
  treasury := .default
  genesis := []
  logging := .default

instance : Inhabited Settings := ⟨default⟩

/-- Settings as JSON. -/
def toJson (s : Settings) : Json :=
  .object [("name", .string s.name), ("data_dir", .string s.dataDir),
    ("protocol", s.protocol.toJson), ("treasury", s.treasury.toJson),
    ("genesis", .array (s.genesis.map Allocation.toJson)), ("logging", s.logging.toJson)]

instance : ToJson Settings := ⟨toJson⟩

/-- The settings that a JSON value stands for. There may be no allocations. -/
def ofJson? (v : Json) : Option Settings := do
  let [some name, some dataDir, some protocol, some treasury, genesis, some logging] ←
    v.record? ["name", "data_dir", "protocol", "treasury", "genesis", "logging"] | none
  return {
    name := ← name.text?
    dataDir := ← dataDir.text?
    protocol := ← ProtocolConfig.ofJson? protocol
    treasury := ← TreasurySettings.ofJson? treasury
    genesis := ← Json.orDefault? [] (Json.list? Allocation.ofJson?) genesis
    logging := ← LogSettings.ofJson? logging }

instance : FromJson Settings := ⟨ofJson?⟩

end Settings

end StakeGovernance
