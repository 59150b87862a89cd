import StakeGovernance.Call
import StakeGovernance.OrderedMap

/-!
# The disk

Directories and text files, as far as a program sees them that is given paths by its
user. A path is a row of names with slashes between them and counts from the working
directory. Each name is looked up in the directory that the names before it lead to; a
single dot is that directory itself, two dots are the one it is in. Neither a name nor a
path may be too long.

* `StakeGovernance.Disk` – the **disk**;
* `StakeGovernance.Disk.read?`, `StakeGovernance.Disk.present` – what is **found** under
  a path;
* `StakeGovernance.Disk.write`, `StakeGovernance.Disk.rename` – what **changes** it, or
  else leaves it as it is;
* `StakeGovernance.Disk.makeDirectories` – makes the **directories** of a path, as many as
  can be made.
-/

namespace StakeGovernance

/-- **A place on the disk**: the names that lead to it from the working directory, two dots
among the first ones for each level up. The names of an absolute place begin with a
slash. -/
structure Place where
  names : List String
deriving DecidableEq

namespace Place

/-- The working directory. -/
def here : Place := ⟨[]⟩

/-- The root of the disk. -/
def root : Place := ⟨["/"]⟩

/-- Whether a place is the working directory or above it. -/
def isAbove (p : Place) : Bool := p.names.all (· = "..")

/-- The directory that a place is in. -/
def up (p : Place) : Place :=
  if p = root then root
  else if p.isAbove then ⟨p.names ++ [".."]⟩
  else ⟨p.names.dropLast⟩

/-- What a name means in a directory. -/
def step (p : Place) (name : String) : Place :=
  if name = "." then p else if name = ".." then p.up else ⟨p.names ++ [name]⟩

/-- Whether a place is inside another one, or the same. -/
def within (p q : Place) : Bool := q.names.isPrefixOf p.names

instance : Ord Place := ⟨fun a b => compare a.names b.names⟩

instance : Std.OrientedOrd Place where
  eq_swap {a b} := @Std.OrientedCmp.eq_swap _ compare _ a.names b.names

instance : Std.TransOrd Place where
  isLE_trans {a b c} := @Std.TransCmp.isLE_trans _ compare _ a.names b.names c.names

instance : Std.LawfulEqOrd Place where
  eq_of_compare {a b} h := by
    cases a
    cases b
    exact congrArg _ (@Std.LawfulEqCmp.eq_of_compare _ compare _ _ _ h)

end Place

/-- What can be found at a place. -/
inductive DiskEntry where
  | file (content : String)
  | directory
deriving DecidableEq

/-- **The disk**: what is found at each place. The root, the working directory and those
above it are always there. -/
structure Disk where
  entries : OrderedMap Place DiskEntry
deriving DecidableEq

/-- A change of the disk that is not possible. -/
inductive DiskError where
  | refused (path : String)
deriving DecidableEq, Repr

/-- The wording of an error. -/
def DiskError.message : DiskError → String
  | refused path => s!"cannot access {path}"

namespace Disk

/-- A disk with nothing on it but the working directory. -/
def empty : Disk := ⟨.empty⟩

/-! ### Paths -/

/-- The number of bytes that a name can have. -/
def nameLimit : Nat := 255

/-- The number of bytes that is too large for a path. -/
def pathLimit : Nat := 4096

/-- Whether a text can be a path. -/
def isPath (text : String) : Bool :=
  text ≠ "" && text.utf8ByteSize < pathLimit && !text.toList.contains '\x00'

/-- The names in a path. -/
def names (path : String) : List String :=
  ((path.toList.splitOn '/').map String.ofList).filter (· ≠ "")

/-- Whether a path begins with a slash. -/
def isAbsolute (path : String) : Bool := path.toList.head? = some '/'

/-- Whether a path ends in a slash. -/
def endsInSlash (path : String) : Bool := path.toList.getLast? = some '/'

/-- The names that are looked up for a path: what ends in a slash must be a directory. -/
def steps (path : String) : List String := names path ++ if endsInSlash path then ["."] else []

/-- Where a path begins. -/
def start (path : String) : Place := if isAbsolute path then .root else .here

/-- The names in a path that lead to another place. -/
def parts (path : String) : List String := (names path).filter (· ≠ ".")

/-- The path without the last part. -/
def parent (path : String) : String :=
  (if isAbsolute path then "/" else "") ++ "/".intercalate (parts path).dropLast

/-- The path of what is called by a name in a directory. -/
def join (directory name : String) : String :=
  if directory = "" then name
  else if endsInSlash directory then directory ++ name
  else directory ++ "/" ++ name

/-- What is found at a place. -/
def at? (d : Disk) (p : Place) : Option DiskEntry :=
  if p.isAbove || p = .root then some .directory else d.entries.get? p

/-- Whether a place is a directory. -/
def isDirectory (d : Disk) (p : Place) : Bool := d.at? p = some .directory

/-- Whether a name can be looked up at a place. -/
def canStep (d : Disk) (p : Place) (name : String) : Bool :=
  d.isDirectory p && name.utf8ByteSize ≤ nameLimit

/-- The place that names lead to. All but the last must be directories. -/
def walk (d : Disk) (p : Place) : List String → Option Place
  | [] => some p
  | name :: rest => if d.canStep p name then d.walk (p.step name) rest else none

/-- The place of a path. -/
def locate? (d : Disk) (path : String) : Option Place :=
  if isPath path then d.walk (start path) (steps path) else none

/-! ### What is found -/

/-- **What is found under a path.** -/
def find? (d : Disk) (path : String) : Option DiskEntry := (d.locate? path).bind d.at?

/-- **Whether something is found under a path.** -/
def present (d : Disk) (path : String) : Bool := (d.find? path).isSome

/-- **The content of the file** under a path. -/
def read? (d : Disk) (path : String) : Option String :=
  match d.find? path with
  | some (.file content) => some content
  | _ => none

/-! ### Changes -/

/-- The disk with something put at a place. -/
def put (d : Disk) (p : Place) (entry : DiskEntry) : Disk := ⟨d.entries.insert p entry⟩

/-- The disk with directories made where they are missing, and whether all of them are
there then. -/
def dig (d : Disk) (p : Place) : List String → Disk × Bool
  | [] => (d, d.isDirectory p)
  | name :: rest =>
    if d.canStep p name then
      let q := p.step name
      -- a file in the way is found out by the next step, or at the end
      match d.at? q with
      | none => (d.put q .directory).dig q rest
      | some _ => d.dig q rest
    else (d, false)

/-- A change, or the error that it is not possible. -/
def changed (path : String) (next : Option Disk) : Call DiskError Disk Unit :=
  match next with
  | some d => set d
  | none => throw (.refused path)

/-- The disk with the directories of a path made, and whether all of them are there then. A
last part that is followed by a dot is not made. -/
def dug (d : Disk) (path : String) : Disk × Bool :=
  if (names path).getLast? = some "." then
    let (d, done) := d.dig (start path) (parts path).dropLast
    (d, done && (d.locate? path).any d.isDirectory)
  else d.dig (start path) (parts path)

/-- **Makes a directory** and all that lead to it. The empty path stands for none. Those
that could be made stay also if others could not. -/
def makeDirectories (path : String) : Call DiskError Disk Unit := do
  if path ≠ "" then
    if !isPath path then throw (.refused path)
    let (d, done) := (← get).dug path
    set d
    if !done then throw (.refused path)

/-- Makes the directories that lead to a path. -/
def makeParents (path : String) : Call DiskError Disk Unit := makeDirectories (parent path)

/-- Whether the last name of a path is a name of its own, so that a file can have it. -/
def endsInName (path : String) : Bool :=
  (steps path).getLast?.any fun name => name ≠ "." && name ≠ ".."

/-- The disk with a file written, if its directory is there and it is none itself. -/
def written? (d : Disk) (path content : String) : Option Disk := do
  let p ← d.locate? path
  if d.isDirectory p || !endsInName path then none
  else some (d.put p (.file content))

/-- **Writes a file.** -/
def write (path content : String) : Call DiskError Disk Unit := do
  changed path ((← get).written? path content)

/-- The disk with a file moved, if there is no directory where it goes. -/
def renamed? (d : Disk) (source target : String) : Option Disk := do
  let p ← d.locate? source
  let q ← d.locate? target
  let content ← d.read? source
  if d.isDirectory q || !endsInName target then none
  else some ((⟨d.entries.erase p⟩ : Disk).put q (.file content))

/-- **Moves a file**, in place of the one that may be there. -/
def rename (source target : String) : Call DiskError Disk Unit := do
  changed source ((← get).renamed? source target)

/-- The disk without what is found under a path. -/
def removed (d : Disk) (path : String) : Disk :=
  match d.locate? path with
  | some p => ⟨d.entries.filter fun q _ => !q.within p⟩
  | none => d

/-- The disk with a file written and the directories that lead to it made, as far as that
is possible. -/
def withFile (d : Disk) (path content : String) : Disk :=
  let call : Call DiskError Disk Unit := do
    makeParents path
    write path content
  (call.runFrom d).2

end Disk

end StakeGovernance
