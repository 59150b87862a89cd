import StakeGovernance.Setup.Settings

/-!
# The layout of settings

In a file of settings a record may also be written as an array of its parts. Whatever
follows the last part is of no account there, of any kind and however much it is. Nothing
else tells records and lists apart in such a file, so that it takes the layout of the
settings to say which items are meant.

* `StakeGovernance.Layout` – the **layout** of data;
* `StakeGovernance.Layout.trim` – a value **without what follows the last part** of each
  record;
* `StakeGovernance.Settings.layout` – the layout of **settings**.
-/

namespace StakeGovernance

/-- **The layout of data.** -/
inductive Layout where
  /-- Data without records in it. -/
  | plain
  | list (item : Layout)
  /-- The parts of a record with their names, in order. -/
  | record (parts : List (String × Layout))
deriving Inhabited

namespace Layout

mutual

/-- **A value without what follows the last part** of each record. -/
def trim : Layout → Json → Json
  | .list item, .array items => .array (items.map (trim item))
  | .record parts, .array items => .array (trimItems parts items)
  | .record parts, .object fields =>
    .object (fields.map fun (name, value) => (name, trimPart parts name value))
  | _, value => value

/-- The items that are parts of a record. -/
def trimItems : List (String × Layout) → List Json → List Json
  | (_, layout) :: parts, x :: xs => trim layout x :: trimItems parts xs
  | _, _ => []

/-- The part of a record that has this name. -/
def trimPart (parts : List (String × Layout)) (name : String) (value : Json) : Json :=
  match parts with
  | [] => value
  | (part, layout) :: parts =>
    if part = name then trim layout value else trimPart parts name value

end

/-- A record whose parts have no records in them. -/
def ofNames (names : List String) : Layout := .record (names.map fun name => (name, .plain))

end Layout

/-- The layout of the settings of a protocol. -/
def ProtocolConfig.layout : Layout :=
  .record [("address", .plain), ("guardian", .plain),
    ("staking", .record [("kickoff", .plain), ("bucket_interval", .plain),
      ("curve", .ofNames ["min_bps", "max_bps", "max_duration"])]),
    ("governor", .ofNames ["voting_delay", "voting_period", "proposal_threshold",
      "quorum_votes", "max_actions"]),
    ("timelock", .ofNames ["delay", "min_delay", "max_delay", "grace_period"])]

/-- **The layout of settings.** -/
def Settings.layout : Layout :=
  .record [("name", .plain), ("data_dir", .plain), ("protocol", ProtocolConfig.layout),
    ("treasury", .ofNames ["enabled", "capability", "account", "initial_balance",
      "per_transfer_cap"]),
    ("genesis", .list (.ofNames ["account", "amount"])),
    ("logging", .ofNames ["level", "log_file", "format"])]

end StakeGovernance
