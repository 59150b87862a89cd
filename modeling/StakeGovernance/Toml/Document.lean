import StakeGovernance.Toml.Basic

/-!
# The tables of a TOML document

A document is written line by line: a header opens a table, a line with a key sets a
value in the table that is open. A table has one header at most, and a key is set once.
Both headers and keys may be paths, whose tables come into being on the way.

* `StakeGovernance.Toml.Line` – a **line** that says something;
* `StakeGovernance.Toml.visit` – **changes the table** that a path leads to;
* `StakeGovernance.Toml.ofLines?` – the **document** that lines make up.
-/

namespace StakeGovernance.Toml

/-- **A line** that says something. -/
inductive Line where
  /-- The header of a table. -/
  | header (path : List String) (name : String)
  /-- The header of an item of an array. -/
  | item (path : List String) (name : String)
  /-- A key with its value. -/
  | entry (path : List String) (name : String) (value : Toml)

/-- The fields with another value under a key. -/
def setField (name : String) (value : Toml) : Fields → Fields
  | [] => [(name, value)]
  | (k, v) :: fs => if k = name then (name, value) :: fs else (k, v) :: setField name value fs

/-- The fields with a new key. -/
def addField (name : String) (value : Toml) (fields : Fields) : Option Fields :=
  if (fields.lookup name).isSome then none else some (setField name value fields)

/-- Whether a path may lead through a table: never through one in braces, and a path of a
key through no table that has a header. -/
def passable (ofKey : Bool) : Origin → Bool
  | .header => !ofKey
  | .path | .dotted => true
  | .inline => false

/-- **Changes the table that a path leads to**, from a table on. What is missing on the way
comes into being; where headers add to an array, its latest item is meant. -/
def visit (ofKey : Bool) (change : Origin → Fields → Option Fields) (origin : Origin)
    (fields : Fields) : List String → Option Fields
  | [] => change origin fields
  | k :: ks =>
    match fields.lookup k with
    | none =>
      let origin := if ofKey then Origin.dotted else .path
      (visit ofKey change origin [] ks).map fun inner => setField k (.table origin inner) fields
    | some (.table origin inner) =>
      if passable ofKey origin then
        (visit ofKey change origin inner ks).map fun inner =>
          setField k (.table origin inner) fields
      else none
    | some (.array true items) =>
      match items.getLast? with
      | some (.table origin inner) =>
        (visit ofKey change origin inner ks).map fun inner =>
          setField k (.array true (items.dropLast ++ [.table origin inner])) fields
      | _ => none
    | some _ => none

/-- Sets a key. A path leads to a table that dotted keys made, and to no other. -/
def enter (path : List String) (name : String) (value : Toml) (origin : Origin)
    (fields : Fields) : Option Fields :=
  visit true (fun origin fields =>
    if (origin == .dotted) == path.isEmpty then none else addField name value fields)
    origin fields path

/-- Opens a table: one that is new, or that only headers of tables inside it have named. -/
def openTable (name : String) (_ : Origin) (fields : Fields) : Option Fields :=
  match fields.lookup name with
  | none => some (setField name (.table .header []) fields)
  | some (.table .path inner) => some (setField name (.table .header inner) fields)
  | some _ => none

/-- Opens a new item of an array. -/
def openItem (name : String) (_ : Origin) (fields : Fields) : Option Fields :=
  let item := Toml.table .header []
  match fields.lookup name with
  | none => some (setField name (.array true [item]) fields)
  | some (.array true items) => some (setField name (.array true (items ++ [item])) fields)
  | some _ => none

/-- The document with what lines say, while the table of a path is open. -/
def addLines (fields : Fields) (section? : List String) : List Line → Option Fields
  | [] => some fields
  | .header path name :: rest =>
    (visit false (openTable name) .header fields path).bind fun fields =>
      addLines fields (path ++ [name]) rest
  | .item path name :: rest =>
    (visit false (openItem name) .header fields path).bind fun fields =>
      addLines fields (path ++ [name]) rest
  | .entry path name value :: rest =>
    (visit false (enter path name value) .header fields section?).bind fun fields =>
      addLines fields section? rest

/-- **The document that lines make up.** -/
def ofLines? (lines : List Line) : Option Toml :=
  (addLines [] [] lines).map (.table .header)

/-- A table in braces. -/
def inline? (entries : List (List String × String × Toml)) : Option Toml :=
  (entries.foldlM (fun fields (path, name, value) => enter path name value .inline fields) []).map
    (.table .inline)

end StakeGovernance.Toml
