import StakeGovernance.Capability.Treasury
import StakeGovernance.OrderedMap

/-!
# Capabilities

A capability is an address that actions can target. Behind it stand handlers, one for
each of its versions. Which version is active is not kept here: it belongs to the state
of the protocol and is changed by proposal only.

* `StakeGovernance.Registry` – the **handlers** by target and version;
* `StakeGovernance.Registry.register`, `StakeGovernance.Registry.resolve?` – enters a
  handler, and finds it.
-/

namespace StakeGovernance

/-- **The handlers** by target and version. -/
structure Registry where
  handlers : OrderedMap Address (OrderedMap Version Treasury)
deriving DecidableEq

namespace Registry

/-- Without any handler. -/
def empty : Registry := ⟨.empty⟩

/-- The handlers of a target by version. -/
def handlersOf (r : Registry) (target : Address) : OrderedMap Version Treasury :=
  r.handlers.getD target .empty

/-- **The handler** of a version of a target. -/
def resolve? (r : Registry) (target : Address) (version : Version) : Option Treasury :=
  (r.handlersOf target).get? version

/-- Whether a target has a handler. -/
def hasTarget (r : Registry) (target : Address) : Bool := r.handlers.contains target

/-- Whether a version of a target has a handler. -/
def hasVersion (r : Registry) (target : Address) (version : Version) : Bool :=
  (r.resolve? target version).isSome

/-- The versions of a target in ascending order. -/
def versions (r : Registry) (target : Address) : List Version := (r.handlersOf target).keys

/-- The latest version of a target. -/
def latestVersion? (r : Registry) (target : Address) : Option Version :=
  (r.versions target).getLast?

/-- **Enters a handler** as a version of a target. A version is never replaced. -/
def register (r : Registry) (target : Address) (version : Version) (handler : Treasury) :
    Except GovernanceError Registry :=
  if target.isZero then .error .zeroCapability
  else if r.hasVersion target version then .error (.versionTaken version target)
  else .ok ⟨r.handlers.insert target ((r.handlersOf target).insert version handler)⟩

/-- The handlers of a target as a text for inspection. -/
def describeHandlers (handlers : OrderedMap Version Treasury) : String :=
  let items := handlers.entries.map fun (version, t) => "(" ++ toString version ++ ", \"" ++
    t.name ++ "\")"
  "[" ++ ", ".intercalate items ++ "]"

/-- All handlers as a text for inspection. -/
def describe (r : Registry) : String :=
  let items := r.handlers.entries.map fun (target, handlers) =>
    "Address(" ++ target.toHexText ++ "): " ++ describeHandlers handlers
  "\x7b" ++ ", ".intercalate items ++ "\x7d"

end Registry

end StakeGovernance
