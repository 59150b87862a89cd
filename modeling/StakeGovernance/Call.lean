/-!
# Calls on a state

A call runs on a state and ends with a result or with an error; in both cases it leaves
a state behind. A call that has changed something before it fails leaves the change:
that failing calls leave everything as it was is a theorem about each of them and not
a property of the type.

* `StakeGovernance.Call` – a **call**;
* `StakeGovernance.Call.ofExcept` – a computation that reads no state;
* `StakeGovernance.Call.part` – a call on a **part of the state**, made on the whole.
-/

namespace StakeGovernance

/-- **A call** on a state `σ` that returns an `α` or fails with an `ε`. -/
abbrev Call (ε σ α : Type) : Type := EStateM ε σ α

namespace Call

variable {ε δ σ τ α : Type}

/-- A computation that needs no state and changes none. -/
def ofExcept : Except ε α → Call ε σ α
  | .ok a => pure a
  | .error e => throw e

instance : MonadLift (Except ε) (EStateM ε σ) := ⟨ofExcept⟩

/-- **A call on a part of the state**, made on the whole: whatever the part has become,
also after an error, is put back. -/
def part (get : σ → τ) (put : τ → σ → σ) (wrap : ε → δ) (call : Call ε τ α) : Call δ σ α :=
  fun s =>
    match call (get s) with
    | .ok a t => .ok a (put t s)
    | .error e t => .error (wrap e) (put t s)

/-- Lets every item of a list run its call, in order. -/
def forEach {β : Type} (items : List β) (call : β → Call ε σ Unit) : Call ε σ Unit :=
  match items with
  | [] => pure ()
  | x :: xs => do
    call x
    forEach xs call

/-- Lets every item of a list run its call, in order, and collects the results. -/
def collect {β : Type} (items : List β) (call : β → Call ε σ α) : Call ε σ (List α) :=
  match items with
  | [] => pure []
  | x :: xs => do
    let a ← call x
    let rest ← collect xs call
    return a :: rest

/-- The error or the result of a call, together with the state it leaves. -/
def runFrom (call : Call ε σ α) (s : σ) : Except ε α × σ :=
  match call s with
  | .ok a t => (.ok a, t)
  | .error e t => (.error e, t)

end Call

end StakeGovernance
