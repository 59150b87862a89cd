import StakeGovernance.Store.Error

/-!
# What can go wrong with settings and with a setup

* `StakeGovernance.SetupError` – the **causes**;
* `StakeGovernance.SetupError.message` – the wording.
-/

namespace StakeGovernance

/-- **What can go wrong** with settings, or when a protocol is set up or resumed. -/
inductive SetupError where
  /-- A file of settings that cannot be read. -/
  | unreadable (path : String)
  /-- A file that holds no settings. -/
  | malformed (path : String)
  /-- A file of settings that cannot be written. -/
  | unwritable (path : String)
  /-- Settings with a number that a file of settings cannot hold. -/
  | unprintable
  /-- What the disk itself says, when a directory cannot be made. -/
  | disk (error : DiskError)
  /-- A path that might lead out of its directory. -/
  | traversal
  /-- A name of blanks. -/
  | noName
  /-- The zero address for the protocol. -/
  | zeroProtocol
  /-- A treasury without its addresses. -/
  | noTreasury
  /-- A treasury at the address of the protocol. -/
  | treasuryAtProtocol
  | logFormat (format : String)
  | staking (error : StakingError)
  | governance (error : GovernanceError)
  /-- An allocation that cannot be credited. -/
  | allocation (account : Address) (error : StakingError)
  /-- A first balance of the treasury that cannot be credited. -/
  | treasuryBalance (error : StakingError)
  | storage (error : StorageError)
  /-- A store that is in use. -/
  | inUse (path : String)
  /-- A store without a snapshot. -/
  | noState (path : String)
  /-- A store of another protocol. -/
  | otherProtocol (stored configured : Address)
  /-- A capability in use for which there is no handler. -/
  | noHandler (target : Address)
deriving DecidableEq

namespace SetupError

/-- The wording of an error. -/
def message : SetupError → String
  | unreadable path => s!"Failed to read config file '{path}'"
  | malformed path => s!"Failed to parse config file '{path}'"
  | unwritable path => s!"Failed to write config file '{path}'"
  | unprintable => "out-of-range value for u64 type"
  | disk e => e.message
  | traversal => "Invalid path: directory traversal detected"
  | noName => "Node name cannot be empty"
  | zeroProtocol => "Protocol address cannot be the zero address"
  | noTreasury => "Treasury capability and account must be set"
  | treasuryAtProtocol => "Treasury capability cannot be the protocol address"
  | logFormat format => s!"Unknown log format '{format}', expected json or pretty"
  | staking e => e.message
  | governance e => e.message
  | allocation account e => s!"genesis allocation to {account}: {e.message}"
  | treasuryBalance e => s!"treasury initial balance: {e.message}"
  | storage e => e.message
  | inUse path =>
    s!"State store at '{path}' is already initialized (use --force to replace it)"
  | noState path => "No state at '" ++ path ++ "', run \x60lockgov init\x60 first"
  | otherProtocol stored configured =>
    s!"Store belongs to protocol {stored}, config names {configured}"
  | noHandler target => s!"No handler configured for capability {target}"

end SetupError

end StakeGovernance
