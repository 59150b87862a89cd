import StakeGovernance.Proofs.RoundTrips

/-!
# Which logs are in order when a ledger is read

Search and scan agree on a log whose points ascend, and writes leave no other. A log that is read
need not have been written, and there are two ways for it to come in. Stake logs are packed, and
whoever unpacks them looks at the order of their points. The histories of pointers, the amounts that
are attributed and the totals are plain lists, and nobody looks at them. So a ledger that is read
from what a ledger in order was written as is in order, but from other texts only the stake logs
are: whatever the other logs are to be, there is a text that is read as just that.

* `StakeGovernance.Ledger.EachLog` – what holds of **every log** of a ledger;
* `StakeGovernance.Ledger.logs_of_read` – **what is known of the logs** of a ledger that was read;
* `StakeGovernance.Ledger.read_out_of_order` – a ledger that is read, on which **search and scan do
  not agree**.
-/

namespace StakeGovernance

/-! ### Search and scan -/

namespace CheckpointLog

variable {α : Type} {log : CheckpointLog α}

/-- **Search and scan agree** at every point. -/
def Agrees (log : CheckpointLog α) : Prop :=
  ∀ point, log.valueAt point = log.valueAtLinear point

theorem Ordered.agrees (h : log.Ordered) : log.Agrees := h.valueAt_eq_valueAtLinear

/-- **A log out of order**: its first checkpoint is later than its second one. -/
def twisted (a b : α) : CheckpointLog α := ⟨[⟨.ofNat 10, a⟩, ⟨.ofNat 5, b⟩]⟩

/-- The search finds the checkpoint behind the later one. -/
theorem valueAt_twisted (a b : α) : (twisted a b).valueAt (.ofNat 5) = some b := by
  have hsame : decide ((Word.ofNat 5 : Timestamp) ≤ .ofNat 5) = true := by decide
  simp [valueAt, partitionPoint, narrow, twisted, hsame]

/-- The scan stops in front of it. -/
theorem valueAtLinear_twisted (a b : α) : (twisted a b).valueAtLinear (.ofNat 5) = none := by
  have hlate : decide ((Word.ofNat 10 : Timestamp) ≤ .ofNat 5) = false := by decide
  simp [valueAtLinear, twisted, hlate]

theorem not_agrees_twisted (a b : α) : ¬ (twisted a b).Agrees := fun h => by
  have hsame := h (.ofNat 5)
  rw [valueAt_twisted, valueAtLinear_twisted] at hsame
  cases hsame

end CheckpointLog

namespace Ledger

variable {l w : Ledger} {text : String} {v : Json}

/-- **What holds of every log of a ledger.** -/
structure EachLog (P : ∀ {α : Type}, CheckpointLog α → Prop) (l : Ledger) : Prop where
  stakes : ∀ account bucket, P (BucketLogs.log l.stakes account bucket)
  history : ∀ owner, P (l.delegation.historyOf owner)
  delegated : ∀ account bucket, P (BucketLogs.log l.delegation.delegated account bucket)
  total : P l.totalLog

theorem EachLog.agrees (h : l.EachLog CheckpointLog.Ordered) : l.EachLog CheckpointLog.Agrees :=
  ⟨fun account bucket => (h.stakes account bucket).agrees, fun owner => (h.history owner).agrees,
    fun account bucket => (h.delegated account bucket).agrees, h.total.agrees⟩

/-- All logs of a sound ledger are in order. -/
theorem Sound.eachLog (h : l.Sound) : l.EachLog CheckpointLog.Ordered :=
  ⟨fun account bucket => (h.stakes account bucket).ordered, fun owner => (h.history owner).ordered,
    fun account bucket => (h.delegated account bucket).ordered, h.totals.ordered⟩

/-! ### Reading -/

/-- The ledger of a text. Its tables have numbers for keys. -/
def ofText? (text : String) : Option Ledger := (Json.parseTables? text).bind ofJson?

theorem storable_of_ofText? (h : ofText? text = some l) : l.Storable := by
  obtain ⟨v, -, hv⟩ := Option.bind_eq_some_iff.1 h
  exact storable_of_ofJson? hv

/-- **A ledger that can be stored** is read from what it is written as. -/
theorem Storable.ofText? (h : l.Storable) (hv : l.toJson.Rearranged v) :
    Ledger.ofText? v.compact = some l := h.survives.parseText?_compact hv true

/-- **A ledger that was in order** is read in order. -/
theorem eachLog_of_written (hw : w.EachLog CheckpointLog.Ordered) (hv : w.toJson.Rearranged v)
    (h : ofText? v.compact = some l) : l.EachLog CheckpointLog.Ordered := by
  -- changes that nobody has taken notice of are not written
  have hstorable : ({ w with events := [] } : Ledger).Storable := ⟨rfl, hw.stakes⟩
  cases (hstorable.ofText? hv).symm.trans h
  exact ⟨hw.stakes, hw.history, hw.delegated, hw.total⟩

/-- **What is known of the logs of a ledger that was read** from some text. The points of its stake
logs ascend, and search and scan agree on them at every point. If the text is that of a ledger all
whose logs are in order, with the fields of its tables in any order, then all logs are in order, and
search and scan agree on all of them. Otherwise nothing is known of the logs of pointers, of
attributed amounts and of totals: whatever they are to be, some text is read as the same ledger with
these. -/
theorem logs_of_read (h : ofText? text = some l) :
    (∀ account bucket, (BucketLogs.log l.stakes account bucket).Ordered ∧
      (BucketLogs.log l.stakes account bucket).Agrees) ∧
    (∀ (w : Ledger) (v : Json), w.EachLog CheckpointLog.Ordered → w.toJson.Rearranged v →
      text = v.compact →
      l.EachLog CheckpointLog.Ordered ∧ l.EachLog CheckpointLog.Agrees) ∧
    ∀ (delegation : Delegation) (totalLog : CheckpointLog Amount), ∃ other,
      ofText? other = some { l with delegation, totalLog } := by
  have hstorable := storable_of_ofText? h
  refine ⟨fun account bucket => ?_, fun w v hw hv htext => ?_, fun delegation totalLog => ?_⟩
  · exact ⟨hstorable.ordered account bucket, (hstorable.ordered account bucket).agrees⟩
  · have hordered := eachLog_of_written hw hv (htext ▸ h)
    exact ⟨hordered, hordered.agrees⟩
  · have hother : ({ l with delegation, totalLog } : Ledger).Storable :=
      ⟨hstorable.events, hstorable.ordered⟩
    exact ⟨_, hother.ofText? (.refl _)⟩

/-- The ledger that a small run comes to is read in order from what it is written as. -/
theorem logs_of_read_sample :
    let w := (Run.perform Sample.start Sample.operations).2.state.ledger
    ∃ l, ofText? w.toJson.compact = some l ∧ l.EachLog CheckpointLog.Agrees := by
  intro w
  have hstorable : w.Storable := Sample.run.storable.ledger
  have hread := hstorable.ofText? (.refl _)
  obtain ⟨-, hwritten, -⟩ := logs_of_read hread
  exact ⟨w, hread, (hwritten w _ Sample.run.orderly.sound.eachLog (.refl _) rfl).2⟩

end Ledger

/-! ### A ledger out of order -/

namespace Sample

/-- The delegate of the account. -/
def bob : Address := ⟨List.replicate 20 2, rfl⟩

/-- A ledger without stakes, all other logs of which are out of order. -/
def disordered : Ledger where
  params := .default
  stakes := .empty
  delegation := {
    current := .empty
    history := OrderedMap.empty.insert alice (.twisted alice bob)
    delegated := OrderedMap.empty.insert bob
      (OrderedMap.empty.insert (.ofNat 100) (.twisted (Word.ofNat 1) (Word.ofNat 2))) }
  total := .zero
  totalLog := .twisted (Word.ofNat 1) (Word.ofNat 2)
  lastPoint := .zero
  events := []

end Sample

/-- **A ledger is read out of order**: there is a text that is read as a ledger on which search and
scan do not agree, be it on a history, on an attributed amount or on the total. At point 5 the
search finds a total of 2, and the scan finds none. -/
theorem Ledger.read_out_of_order :
    let l := Sample.disordered
    ofText? l.toJson.compact = some l ∧ ¬ l.EachLog CheckpointLog.Ordered ∧
      ¬ (l.delegation.historyOf Sample.alice).Agrees ∧
      ¬ (BucketLogs.log l.delegation.delegated Sample.bob (.ofNat 100)).Agrees ∧
      ¬ l.totalLog.Agrees ∧
      l.totalLog.valueAt (.ofNat 5) = some (Word.ofNat 2) ∧
      l.totalLog.valueAtLinear (.ofNat 5) = none := by
  have hstorable : Sample.disordered.Storable := ⟨rfl, fun _ _ => .nil⟩
  have htotal : ¬ Sample.disordered.totalLog.Agrees := CheckpointLog.not_agrees_twisted _ _
  exact ⟨hstorable.ofText? (.refl _), fun h => htotal h.agrees.total,
    CheckpointLog.not_agrees_twisted _ _, CheckpointLog.not_agrees_twisted _ _, htotal,
    CheckpointLog.valueAt_twisted _ _, CheckpointLog.valueAtLinear_twisted _ _⟩

end StakeGovernance
