import StakeGovernance.Proofs.Calls
import StakeGovernance.Service.Request

/-!
# Runs of a protocol

A run begins with a new protocol and goes on by operations, each with any arguments and at
any time, whether it succeeds or fails. It is recorded step by step: the protocol as it
was, what was asked for, and what was answered.

* `StakeGovernance.Operation` – an **operation** on a protocol;
* `StakeGovernance.Run` – the **runs**, with the protocol that each ends in;
* `StakeGovernance.Run.of_append` – what a step of a run **began with and led to**.
-/

namespace StakeGovernance

/-- **An operation** on a protocol, with its arguments. Putting back a state that was saved
before is not among them: what is put back is the end of an earlier run. -/
inductive Operation where
  | request (request : Request) (now : Timestamp)
  | register (target : Address) (version : Version) (handler : Treasury)
  | drain

/-- **What an operation answers.** -/
inductive Outcome where
  | response (response : Response)
  | registered
  | drained (entries : List JournalEntry)

/-- The call that an operation is. -/
def Operation.run {ν : Type} [Custody ν] : Operation → Call GovernanceError (Protocol ν) Outcome
  | .request content now => do return .response (← content.run now)
  | .register target version handler => do
    Protocol.registerCapability target version handler
    return .registered
  | .drain => do return .drained (← Protocol.drainJournal)

/-- **A step of a run**: the protocol as it was, what was asked for, and what was answered. -/
structure Step (ν : Type) where
  before : Protocol ν
  operation : Operation
  outcome : Except GovernanceError Outcome

namespace Step

variable {ν : Type}

/-- The step that an operation takes. -/
def take [Custody ν] (p : Protocol ν) (operation : Operation) : Step ν :=
  ⟨p, operation, (operation.run.runFrom p).1⟩

/-- **A step that answered a request** made at a time. -/
def Answered (s : Step ν) (request : Request) (now : Timestamp) (response : Response) : Prop :=
  s.operation = .request request now ∧ s.outcome = .ok (.response response)

/-- The receipts of the actions that a step has carried out. -/
def receipts (s : Step ν) : List ActionReceipt :=
  match s.outcome with
  | .ok (.response (.executed report)) => report.receipts
  | _ => []

/-- Where there are receipts, there is a report. -/
theorem exists_report {s : Step ν} (h : s.receipts ≠ []) :
    ∃ report, s.outcome = .ok (.response (.executed report)) ∧ report.receipts = s.receipts := by
  unfold receipts at h ⊢
  split at h
  · rename_i report houtcome
    rw [houtcome]
    exact ⟨report, rfl, rfl⟩
  · exact absurd rfl h

end Step

/-- **The runs** of a protocol with given settings and a given vault. -/
inductive Run {ν : Type} [Custody ν] (config : ProtocolConfig) (vault : ν) :
    List (Step ν) → Protocol ν → Prop where
  | create {p : Protocol ν} (h : Protocol.create config vault = .ok p) : Run config vault [] p
  | step {steps : List (Step ν)} {p : Protocol ν} (h : Run config vault steps p)
    (operation : Operation) :
    Run config vault (steps ++ [.take p operation]) (operation.run.after p)

namespace Run

variable {ν : Type} [Custody ν] {config : ProtocolConfig} {vault : ν}
  {steps early late : List (Step ν)} {p : Protocol ν} {s : Step ν}

/-- **A step of a run** began where the steps before it led, and answered what its operation
answers. -/
theorem of_append (h : Run config vault (early ++ s :: late) p) :
    Run config vault early s.before ∧ s = .take s.before s.operation := by
  -- a run grows at its end, so the step is the last one of the run, or of a shorter run
  generalize hsteps : early ++ s :: late = steps at h
  induction h generalizing late with
  | create _ => cases early <;> cases hsteps
  | step hrun operation ih =>
    rcases List.eq_nil_or_concat late with rfl | ⟨late', last, rfl⟩
    · obtain ⟨rfl, hs⟩ := List.append_inj' hsteps rfl
      cases hs
      exact ⟨hrun, rfl⟩
    · rw [List.concat_eq_append, ← List.cons_append, ← List.append_assoc] at hsteps
      exact ih (List.append_inj' hsteps rfl).1

/-- The protocol after a list of operations, and the steps that they take. -/
def perform (p : Protocol ν) : List Operation → List (Step ν) × Protocol ν
  | [] => ([], p)
  | operation :: rest =>
    let (steps, q) := perform (operation.run.after p) rest
    (.take p operation :: steps, q)

/-- Any operations make a run longer. -/
theorem perform_run (h : Run config vault steps p) (operations : List Operation) :
    Run config vault (steps ++ (perform p operations).1) (perform p operations).2 := by
  induction operations generalizing steps p with
  | nil => rwa [perform, List.append_nil]
  | cons operation rest ih =>
    have hrest := ih (h.step operation)
    rwa [List.append_assoc] at hrest

end Run

/-! ### A small run

One account stakes, proposes to change a rule, votes, and has the proposal queued and executed. -/

namespace Sample

/-- The account that acts. -/
def alice : Address := ⟨List.replicate 20 1, rfl⟩

/-- Settings with short times. -/
def config : ProtocolConfig where
  address := ⟨List.replicate 20 9, rfl⟩
  guardian := .zero
  staking := .default
  governor := ⟨.ofNat 1, .ofNat 10, .ofNat 1, .ofNat 1, .ofNat 10⟩
  timelock := ⟨.ofNat 100, .ofNat 100, .ofNat 200, .ofNat 100⟩

/-- A vault in which the account has all tokens. -/
def vault : Vault := ⟨OrderedMap.empty.insert alice (Word.ofNat 5000), .zero⟩

/-- The proposal to vote five seconds after a proposal. -/
def content : ProposalRequest :=
  (ProposalRequest.empty "later votes").withCommand config.address .zero
    (.setVotingDelay (.ofNat 5))

/-- The new protocol. -/
def start : Protocol Vault :=
  .ofSnapshot ⟨config.address, .empty config.staking,
    ⟨⟨config.address, config.governor, config.guardian, .empty, .empty, .ofNat 1, []⟩,
      ⟨config.address, config.timelock, .empty, []⟩⟩, .empty, .zero, .zero⟩ vault .empty

/-- The operations up to the one that queues the proposal. -/
def operations : List Operation := [
  .request (.stake alice (Word.ofNat 1000) (.ofNat (100 * day)) alice) (.ofNat 10),
  .request (.propose alice content) (.ofNat 20),
  .request (.vote alice (.ofNat 1) .for) (.ofNat 25),
  .request (.queue (.ofNat 1)) (.ofNat 40)]

/-- The operation that executes the proposal. -/
def execution : Operation := .request (.execute (.ofNat 1)) (.ofNat 150)

theorem run : Run config vault (Run.perform start operations).1 (Run.perform start operations).2 :=
  (Run.create (by rfl)).perform_run operations

end Sample

end StakeGovernance
