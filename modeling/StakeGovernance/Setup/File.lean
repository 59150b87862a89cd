import StakeGovernance.Setup.Error
import StakeGovernance.Setup.Layout
import StakeGovernance.Store.Disk
import StakeGovernance.Text.Basic
import StakeGovernance.Toml.Printer

/-!
# Files of settings

Settings are kept in a TOML file. They are checked apart from being read, since some of
them can be given another value before. The checks accept numbers that no such file can
hold.

* `StakeGovernance.Settings.ofText?`, `StakeGovernance.Settings.toText` – settings as
  the **text of a file**;
* `StakeGovernance.Settings.read`, `StakeGovernance.Settings.write` – settings in a
  **file**;
* `StakeGovernance.Settings.validate` – the **checks**.
-/

namespace StakeGovernance.Settings

/-! ### Paths -/

/-- Whether two dots stand side by side. -/
def hasDots : List Char → Bool
  | '.' :: '.' :: _ => true
  | _ :: cs => hasDots cs
  | [] => false

/-- Refuses a path that might lead out of its directory. -/
def checkPath (path : String) : Except SetupError Unit :=
  if hasDots path.toList then .error .traversal else .ok ()

/-! ### Texts -/

/-- **The settings of a text**, if it holds some. -/
def ofText? (text : String) : Option Settings :=
  (Toml.parse? text).bind fun document => ofJson? (layout.trim document.toJson)

/-- **The text of settings**, if all their numbers can stand in it. -/
def toText (s : Settings) : Except SetupError String :=
  match Toml.ofJson? s.toJson with
  | some (.table _ fields) => .ok (Toml.print fields)
  | _ => .error .unprintable

/-! ### Files -/

/-- **Reads a file.** -/
def read (d : Disk) (path : String) : Except SetupError Settings := do
  checkPath path
  match d.read? path with
  | none => throw (.unreadable path)
  | some text =>
    match ofText? text with
    | none => throw (.malformed path)
    | some s => return s

/-- **Writes a file.** Its directory must be there. -/
def write (s : Settings) (path : String) : Call SetupError Disk Unit := do
  checkPath path
  let text ← s.toText
  Call.part id (fun d _ => d) (fun _ => .unwritable path) (Disk.write path text)

/-! ### Checks -/

/-- **Checks settings.** -/
def validate (s : Settings) : Except SetupError Unit := do
  if trimBlanks s.name = "" then throw .noName
  checkPath s.dataDir
  if s.protocol.address.isZero then throw .zeroProtocol
  s.protocol.staking.validate.mapError .staking
  s.protocol.governor.validate.mapError .governance
  s.protocol.timelock.validate.mapError .governance
  if s.treasury.enabled then
    if s.treasury.capability.isZero || s.treasury.account.isZero then throw .noTreasury
    if s.treasury.capability = s.protocol.address then throw .treasuryAtProtocol
  if s.logging.format ≠ "json" ∧ s.logging.format ≠ "pretty" then
    throw (.logFormat s.logging.format)

end StakeGovernance.Settings
