import StakeGovernance.Proofs.Files
import StakeGovernance.Proofs.Frames
import StakeGovernance.Proofs.Journal
import StakeGovernance.Proofs.Storing
import StakeGovernance.Service.Basic

/-!
# A service in step with its store

A service answers the messages of its clients one after the other, in whatever order they
arrive. Each finds the disk in a state of its own, so that a commit may fail at any message:
because a directory is missing or because something is in the way. What was in memory, in the
store and before the eyes of the clients when a message arrives is so again when it is
answered, or else all of it has gone on together.

* `StakeGovernance.StateStore.Holds` – a store that **holds** a state, a vault and a journal;
* `StakeGovernance.Service.submit_eq_ok`, `StakeGovernance.Service.submit_eq_error` – what an
  answer **says about the parts** of a submission;
* `StakeGovernance.Service.InStep` – a service **in step** with its store;
* `StakeGovernance.Service.InStep.of_ok`, `StakeGovernance.Service.InStep.of_error` – what a
  **single message** does;
* `StakeGovernance.Service.stays_in_step` – whatever is asked for and whichever commits fail,
  a service **stays in step**.
-/

namespace StakeGovernance

/-! ### Commits -/

namespace StateStore

variable {s t : StateStore} {d d' : Disk} {snapshot : Snapshot} {state : ProtocolState}
  {vault : Vault} {entries later : List JournalEntry}

/-- **A store that holds** a state, a vault and a journal. Each entry of the journal has a row
of its own as long as there are numbers for all of them. -/
structure Holds (s : StateStore) (state : ProtocolState) (vault : Vault)
    (entries : List JournalEntry) : Prop where
  snapshot : s.loadSnapshot? = .ok (some (.create state vault))
  journal : entries.length ≤ Word.size 64 → s.Records entries

theorem commit_eq_ok : s.commit snapshot entries d = .ok t d' ↔ ∃ c,
    s.database.contents.apply (commitBatch snapshot entries) = .ok c ∧
      Database.persist s.database.path c d = .ok () d' ∧ t = ⟨s.database.path, c⟩ := by
  refine Call.bind_pure_eq_ok.trans ⟨?_, ?_⟩
  · rintro ⟨db, hwrite, rfl⟩
    obtain ⟨c, hc, hpersist, rfl⟩ := Database.writeBatch_eq_ok.1 hwrite
    exact ⟨c, hc, hpersist, rfl⟩
  · rintro ⟨c, hc, hpersist, rfl⟩
    exact ⟨_, Database.writeBatch_eq_ok.2 ⟨c, hc, hpersist, rfl⟩, rfl⟩

/-- **A commit that fails** leaves the file of the database and all directories as they are. -/
theorem commit_eq_error {e : StorageError} (h : s.commit snapshot entries d = .error e d') :
    d.SameDirectories d' ∧ d'.find? (Database.filePath s.database.path)
      = d.find? (Database.filePath s.database.path) := by
  rcases Database.writeBatch_eq_error.1 (Call.bind_pure_eq_error.1 h) with ⟨-, rfl⟩ | ⟨c, -, h⟩
  · exact ⟨fun _ => rfl, rfl⟩
  · exact Database.persist_eq_error h

/-- The file of the database after a commit is the text of what is in memory. -/
theorem file_of_commit (h : s.commit snapshot entries d = .ok t d') :
    d'.find? (Database.filePath s.database.path) = some (.file t.database.contents.toText) := by
  obtain ⟨c, -, hpersist, rfl⟩ := commit_eq_ok.1 h
  exact (Database.persist_eq_ok hpersist).2

/-- **A commit that succeeds** goes on with a journal whose numbers go on. -/
theorem holds_of_commit (hjournal : entries.length ≤ Word.size 64 → s.Records entries)
    (hseqs : Protocol.Consecutive (entries ++ later)) (hstorable : state.Storable)
    (h : s.commit (.create state vault) later d = .ok t d') :
    t.Holds state vault (entries ++ later) := by
  obtain ⟨c, hc, -, rfl⟩ := commit_eq_ok.1 h
  refine ⟨loadSnapshot?_of_commit hstorable hc, fun hroom => ?_⟩
  have hless : entries.length ≤ (entries ++ later).length := by
    rw [List.length_append]
    exact Nat.le_add_right _ _
  exact (hjournal (Nat.le_trans hless hroom)).commit (hseqs.ascending hroom) hc

/-- **A commit of texts** to a disk on which they can be written succeeds. -/
theorem exists_commit {c : Contents} {path : String} (htextual : c.Textual)
    (hwritable : Database.Writable d path) (snapshot : Snapshot) (entries : List JournalEntry) :
    ∃ (c' : Contents) (d' : Disk), c'.Textual ∧ d.SameDirectories d' ∧
      commit ⟨path, c⟩ snapshot entries d = .ok ⟨path, c'⟩ d' := by
  obtain ⟨c', hc', htextual'⟩ := htextual.exists_apply (commitBatch snapshot entries)
  obtain ⟨d', hpersist⟩ := hwritable.persist c'
  exact ⟨c', d', htextual', (Database.persist_eq_ok hpersist).1,
    commit_eq_ok.2 ⟨c', hc', hpersist, rfl⟩⟩

end StateStore

/-! ### Protocols in memory -/

namespace Protocol

variable {ν : Type} {p q : Protocol ν}

/-- The protocol after its journal was taken. -/
def taken (p : Protocol ν) : Protocol ν := { p with journal := [] }

/-- **A protocol that goes back** to what it was. -/
theorem Quiet.rollback_eq (h : Quiet p) (hjournal : p.journal = []) (hq : q.registry = p.registry) :
    q.rollback p.state p.vault = p := by
  unfold rollback ofSnapshot
  rw [hq, ← hjournal, ← h.silent.2.2]

end Protocol

namespace Run

section

variable {ν : Type} [Custody ν] {config : ProtocolConfig} {vault : ν} {steps : List (Step ν)}
  {p q : Protocol ν} {request : Request} {now : Timestamp} {response : Response}

/-- Taking the journal makes a run longer. -/
theorem taken (h : Run config vault steps p) : ∃ steps, Run config vault steps p.taken :=
  ⟨_, h.step .drain⟩

/-- So does a request that succeeds. -/
theorem requested (h : Run config vault steps p) (hrun : request.run now p = .ok response q) :
    ∃ steps, Run config vault steps q := by
  have hafter : (Operation.request request now).run.after p = q :=
    Call.after_of_ok (Call.bind_eq_ok.2 ⟨response, q, hrun, rfl⟩)
  exact ⟨_, hafter ▸ h.step (.request request now)⟩

/-- **What a run has come to can be stored.** -/
theorem storable (h : Run config vault steps p) : p.state.Storable := by
  obtain ⟨hledger, hcouncil, -⟩ := h.quiet.silent
  obtain ⟨htimelock, hgovernor⟩ := List.append_eq_nil_iff.1 hcouncil
  exact ⟨⟨hledger, fun account bucket => (h.orderly.sound.stakes account bucket).ordered⟩,
    hgovernor, htimelock⟩

/-- **What a request records** goes on with the numbers of the entries that were taken. -/
theorem numbered_on (h : Run config vault steps p) {entries : List JournalEntry}
    (hseqs : Protocol.Consecutive entries) (hnext : p.state.nextSeq = .ofNat entries.length)
    (hrun : request.run now p = .ok response q) :
    ∃ later, q.journal = p.journal ++ later ∧ Protocol.Consecutive (entries ++ later) ∧
      q.state.nextSeq = .ofNat (entries ++ later).length := by
  obtain ⟨r, hr, -, rfl⟩ := Protocol.request_reported h.quiet h.fit hrun
  obtain ⟨hjournal, hseq⟩ :=
    Protocol.record_numbered (r.withClock now) now (hr.nextSeq.trans hnext)
  refine ⟨_, hjournal.trans (congrArg (· ++ _) hr.journal), hseqs.append now _, ?_⟩
  rw [hseq, List.length_append, Protocol.length_numbered]

end

/-- **A request that fails** changes nothing. -/
theorem request_without_trace {config : ProtocolConfig} {vault : Vault} {steps : List (Step Vault)}
    {p q : Protocol Vault} (h : Run config vault steps p) {request : Request} {now : Timestamp}
    {e : GovernanceError} (hfailed : request.run now p = .error e q) : q = p := by
  have hoperation : (Operation.request request now).run p = .error e q :=
    Call.bind_eq_error.2 (.inl hfailed)
  exact h.failed_without_trace hoperation

end Run

namespace Service

variable {s t : Service} {d d' : Disk} {host : Host} {request : Request} {now : Timestamp}
  {response : Response} {entries : List JournalEntry}

/-! ### Submissions -/

/-- **What is persisted** is what the protocol has come to, with its journal. -/
theorem persist_eq (s : Service) (d : Disk) (state : ProtocolState) (vault : Vault) :
    persist state vault ⟨s, d⟩ =
      match s.store.commit (.create s.protocol.state s.protocol.vault) s.protocol.journal d with
      | .ok store d' => .ok () ⟨⟨s.protocol.taken, store, s.protocol.state, s.running⟩, d'⟩
      | .error e d' =>
        .error (.storage e) ⟨{ s with protocol := s.protocol.rollback state vault }, d'⟩ := by
  have hdrain : onProtocol Protocol.drainJournal ⟨s, d⟩
      = .ok s.protocol.journal ⟨{ s with protocol := s.protocol.taken }, d⟩ := rfl
  unfold persist
  rw [Call.bind_of_ok hdrain, Call.get_bind]
  dsimp only [Call.runFrom, Protocol.taken]
  cases s.store.commit (.create s.protocol.state s.protocol.vault) s.protocol.journal d <;> rfl

/-- **A submission that succeeds** has run the request and committed what it led to. -/
theorem submit_eq_ok : submit request now ⟨s, d⟩ = .ok response host ↔
    s.running = true ∧ ∃ q store d', request.run now s.protocol = .ok response q ∧
      s.store.commit (.create q.state q.vault) q.journal d = .ok store d' ∧
      host = ⟨⟨q.taken, store, q.state, s.running⟩, d'⟩ := by
  constructor
  · intro h
    have h := Call.get_bind_eq_ok.1 h
    obtain ⟨hrunning, h⟩ := Call.refuse_eq_ok.1 h
    obtain ⟨a, _, hprotocol, h⟩ := Call.bind_eq_ok.1 h
    obtain ⟨q, hrun, rfl⟩ := Call.part_eq_ok.1 hprotocol
    obtain ⟨_, _, hpersist, hpure⟩ := Call.bind_eq_ok.1 h
    obtain ⟨rfl, rfl⟩ := Call.pure_eq_ok.1 hpure
    rw [persist_eq] at hpersist
    split at hpersist
    · rename_i store d' hcommit
      cases hpersist
      exact ⟨by simpa using hrunning, q, store, d', hrun, hcommit, rfl⟩
    · cases hpersist
  · rintro ⟨hrunning, q, store, d', hrun, hcommit, rfl⟩
    refine Call.get_bind_eq_ok.2 (Call.refuse_eq_ok.2 ⟨by simp [hrunning], ?_⟩)
    refine Call.bind_eq_ok.2 ⟨response, _, Call.part_eq_ok.2 ⟨q, hrun, rfl⟩, ?_⟩
    refine Call.bind_eq_ok.2 ⟨(), _, ?_, rfl⟩
    rw [persist_eq]
    simp only
    rw [hcommit]

/-- **A submission that fails** has found the service stopped, or the request was refused, or
what it led to could not be committed. -/
theorem submit_eq_error {e : ServiceError} (h : submit request now ⟨s, d⟩ = .error e host) :
    (s.running = false ∧ e = .closed ∧ host = ⟨s, d⟩) ∨
    (∃ c q, request.run now s.protocol = .error c q ∧ e = .governance c ∧
      host = ⟨{ s with protocol := q }, d⟩) ∨
    ∃ c a q d', request.run now s.protocol = .ok a q ∧
      s.store.commit (.create q.state q.vault) q.journal d = .error c d' ∧ e = .storage c ∧
      host = ⟨{ s with protocol := q.rollback s.protocol.state s.protocol.vault }, d'⟩ := by
  have h := Call.get_bind_eq_error.1 h
  rcases Call.refuse_eq_error.1 h with ⟨hstopped, rfl, rfl⟩ | ⟨-, h⟩
  · exact .inl ⟨by simpa using hstopped, rfl, rfl⟩
  rcases Call.bind_eq_error.1 h with hprotocol | ⟨a, _, hprotocol, h⟩
  · obtain ⟨c, q, hrun, rfl, rfl⟩ := Call.part_eq_error.1 hprotocol
    exact .inr (.inl ⟨c, q, hrun, rfl, rfl⟩)
  obtain ⟨q, hrun, rfl⟩ := Call.part_eq_ok.1 hprotocol
  rcases Call.bind_eq_error.1 h with hpersist | ⟨_, _, -, hpure⟩
  · rw [persist_eq] at hpersist
    split at hpersist
    · cases hpersist
    · rename_i c d' hcommit
      cases hpersist
      exact .inr (.inr ⟨c, a, q, d', hrun, hcommit, rfl, rfl⟩)
  · exact absurd hpure Call.pure_ne_error

/-- **A request that is refused** is not submitted. -/
theorem submit_refused (hrunning : s.running = true) {e : GovernanceError} {q : Protocol Vault}
    (hrun : request.run now s.protocol = .error e q) :
    submit request now ⟨s, d⟩ = .error (.governance e) ⟨{ s with protocol := q }, d⟩ := by
  refine Call.get_bind_eq_error.2 (Call.refuse_eq_error.2 (.inr ⟨by simp [hrunning], ?_⟩))
  exact Call.bind_eq_error.2 (.inl (Call.part_eq_error.2 ⟨e, q, hrun, rfl, rfl⟩))

/-! ### One message -/

/-- **A service in step** with its store: what it has published is what it has in memory, and
its store holds that with all entries that were ever made. -/
structure InStep (s : Service) (entries : List JournalEntry) : Prop where
  published : s.published = s.protocol.state
  taken : s.protocol.journal = []
  stored : s.store.Holds s.protocol.state s.protocol.vault entries
  seqs : Protocol.Consecutive entries
  nextSeq : s.protocol.state.nextSeq = .ofNat entries.length

variable {config : ProtocolConfig} {vault : Vault} {steps : List (Step Vault)}

/-- **A message that is answered** takes everything on together: what its request has recorded
is added to the journal. -/
theorem InStep.of_ok (h : s.InStep entries) (hrun : Run config vault steps s.protocol)
    (hanswer : submit request now ⟨s, d⟩ = .ok response host) :
    ∃ q, request.run now s.protocol = .ok response q ∧ host.service.protocol = q.taken ∧
      host.service.InStep (entries ++ q.journal) := by
  obtain ⟨-, q, store, d', hrequest, hcommit, rfl⟩ := submit_eq_ok.1 hanswer
  obtain ⟨later, hjournal, hseqs, hnext⟩ := hrun.numbered_on h.seqs h.nextSeq hrequest
  rw [h.taken, List.nil_append] at hjournal
  cases hjournal
  obtain ⟨_, hq⟩ := hrun.requested hrequest
  exact ⟨q, hrequest, rfl, rfl, rfl,
    StateStore.holds_of_commit h.stored.journal hseqs hq.storable hcommit, hseqs, hnext⟩

/-- **A message that is refused** leaves everything as it was. -/
theorem InStep.of_error (h : s.InStep entries) (hrun : Run config vault steps s.protocol)
    {e : ServiceError} (hanswer : submit request now ⟨s, d⟩ = .error e host) :
    host.service = s := by
  rcases submit_eq_error hanswer with ⟨-, -, rfl⟩ | ⟨c, q, hrequest, -, rfl⟩ |
    ⟨c, a, q, d', hrequest, hcommit, -, rfl⟩
  · rfl
  · rw [hrun.request_without_trace hrequest]
  · -- the request has left the handlers alone, and they are all that is not put back
    have hregistry : q.registry = s.protocol.registry :=
      ((Protocol.keeps_handled_request request now).of_ok hrequest (.refl s.protocol)).registry
    rw [hrun.quiet.rollback_eq h.taken hregistry]

/-- **The file of the database** is that of the store after a message that is answered, and is
left as it is by any other. -/
theorem file_of_ok (hanswer : submit request now ⟨s, d⟩ = .ok response host) :
    host.disk.find? (Database.filePath s.store.database.path)
      = some (.file host.service.store.database.contents.toText) := by
  obtain ⟨-, q, store, d', -, hcommit, rfl⟩ := submit_eq_ok.1 hanswer
  exact StateStore.file_of_commit hcommit

theorem file_of_error {e : ServiceError} (hanswer : submit request now ⟨s, d⟩ = .error e host) :
    host.disk.find? (Database.filePath s.store.database.path)
      = d.find? (Database.filePath s.store.database.path) := by
  rcases submit_eq_error hanswer with ⟨-, -, rfl⟩ | ⟨c, q, -, -, rfl⟩ |
    ⟨c, a, q, d', -, hcommit, -, rfl⟩
  · rfl
  · rfl
  · exact (StateStore.commit_eq_error hcommit).2

/-! ### Many messages -/

/-- **A message** of a client: what is asked for, the time that it names, and the disk as the
service finds it then. -/
structure Message where
  request : Request
  now : Timestamp
  disk : Disk

/-- What a service answers to a message, and what it leaves behind. -/
def answer (s : Service) (m : Message) : Except ServiceError Response × Host :=
  (submit m.request m.now).runFrom ⟨s, m.disk⟩

/-- The journal entries of a message: those that its request has recorded, if it was answered. -/
def recorded (s : Service) (m : Message) : List JournalEntry :=
  match (s.answer m).1 with
  | .ok _ => ((m.request.run m.now).after s.protocol).journal
  | .error _ => []

/-- **A service after messages**, one after the other, and all journal entries of them. -/
def serve (s : Service) : List Message → List JournalEntry × Service
  | [] => ([], s)
  | m :: rest =>
    let (later, t) := serve (s.answer m).2.service rest
    (s.recorded m ++ later, t)

/-- **What one message keeps**: a service that has come to where it is by a run, and is in step,
is so afterwards. -/
theorem InStep.answer (h : s.InStep entries) (hrun : Run config vault steps s.protocol)
    (m : Message) : (s.answer m).2.service.InStep (entries ++ s.recorded m) ∧
      ∃ steps, Run config vault steps (s.answer m).2.service.protocol := by
  unfold recorded Service.answer Call.runFrom
  cases hanswer : submit m.request m.now ⟨s, m.disk⟩ with
  | ok response host =>
    obtain ⟨q, hrequest, hprotocol, hstep⟩ := h.of_ok hrun hanswer
    obtain ⟨_, hq⟩ := hrun.requested hrequest
    simp only
    rw [Call.after_of_ok hrequest, hprotocol]
    exact ⟨hstep, hq.taken⟩
  | error e host =>
    simp only
    rw [h.of_error hrun hanswer, List.append_nil]
    exact ⟨h, steps, hrun⟩

theorem InStep.serve (h : s.InStep entries) (hrun : Run config vault steps s.protocol)
    (messages : List Message) : (s.serve messages).2.InStep (entries ++ (s.serve messages).1) ∧
      ∃ steps, Run config vault steps (s.serve messages).2.protocol := by
  induction messages generalizing s entries steps with
  | nil => exact ⟨(List.append_nil entries).symm ▸ h, steps, hrun⟩
  | cons m rest ih =>
    obtain ⟨hstep, _, hnext⟩ := h.answer hrun m
    obtain ⟨hserved, hlast⟩ := ih hstep hnext
    rw [List.append_assoc] at hserved
    exact ⟨hserved, hlast⟩

/-- No message stops a service. -/
theorem running_answer (s : Service) (m : Message) :
    (s.answer m).2.service.running = s.running := by
  unfold answer Call.runFrom
  cases hanswer : submit m.request m.now ⟨s, m.disk⟩ with
  | ok response host =>
    obtain ⟨-, q, store, d', -, -, rfl⟩ := submit_eq_ok.1 hanswer
    rfl
  | error e host =>
    rcases submit_eq_error hanswer with ⟨-, -, rfl⟩ | ⟨c, q, -, -, rfl⟩ |
      ⟨c, a, q, d', -, -, -, rfl⟩ <;> rfl

theorem running_serve (s : Service) (messages : List Message) :
    (s.serve messages).2.running = s.running := by
  induction messages generalizing s with
  | nil => rfl
  | cons m rest ih => exact (ih _).trans (s.running_answer m)

end Service

/-! ### A small service -/

namespace Sample

/-- A disk with a directory for a database. -/
def disk : Disk := ⟨OrderedMap.empty.insert ⟨["data"]⟩ .directory⟩

theorem writable_disk : Database.Writable disk "data" where
  draft := ⟨⟨["data", "data.json.tmp"]⟩, by decide +kernel, by decide +kernel⟩
  file := ⟨⟨["data", "data.json"]⟩, by decide +kernel, by decide +kernel⟩

/-- The message of an account that stakes. -/
def first : Service.Message :=
  ⟨.stake alice (Word.ofNat 1000) (.ofNat (100 * day)) alice, .ofNat 10, disk⟩

theorem first_eq_ok :
    ∃ response q, first.request.run first.now start = .ok response q ∧ q.journal.length = 1 := by
  have hsucceeds : ((first.request.run first.now).runFrom start).1.toOption.isSome := by
    decide +kernel
  have hlength : ((first.request.run first.now).after start).journal.length = 1 := by
    decide +kernel
  cases hrun : first.request.run first.now start with
  | ok response q =>
    rw [Call.after_of_ok hrun] at hlength
    exact ⟨response, q, rfl, hlength⟩
  | error e q =>
    rw [Call.runFrom, hrun] at hsucceeds
    cases hsucceeds

/-- Where there is no directory, nothing is written. -/
theorem persist_empty (c : Contents) {d : Disk} :
    ¬ Database.persist "data" c .empty = .ok () d := by
  intro h
  obtain ⟨_, d₁, hwrite, -⟩ := Call.bind_eq_ok.1 h
  obtain ⟨_, hwrite, -⟩ := Call.part_eq_ok.1 hwrite
  have hwritten := Disk.changed_eq_ok.1 (Call.get_bind_eq_ok.1 hwrite)
  obtain ⟨p, hp, -⟩ := Disk.written?_eq_some hwritten
  have hnowhere : Disk.empty.locate? (Database.draftPath "data") = none := by decide +kernel
  cases hnowhere.symm.trans hp

theorem commit_empty (s : StateStore) (hpath : s.database.path = "data") (snapshot : Snapshot)
    (entries : List JournalEntry) {t : StateStore} {d : Disk} :
    ¬ s.commit snapshot entries .empty = .ok t d := by
  intro h
  obtain ⟨c, -, hpersist, -⟩ := StateStore.commit_eq_ok.1 h
  exact persist_empty c (hpath ▸ hpersist)

end Sample

namespace Service

variable {config : ProtocolConfig} {vault : Vault} {steps : List (Step Vault)}
  {entries : List JournalEntry}

/-! ### The main result -/

/-- **A service stays in step.** Let a protocol be the end of a run, with an empty journal, and
let a store hold its state and its vault together with entries that have all numbers before the
next one. Let a service begin with them, let messages arrive in any order, and let each of them
find the disk in any state whatever, so that its commit may fail. Then, after all of them, what
is published is what is in memory, and the store holds just that, with a journal that has all
numbers before the next one. A further message that is answered was carried out, and takes the
journal on by exactly what its request has recorded; the file of the database has it then. A
message that is not answered was refused, or its commit has failed; it leaves the service and
the file as they were. -/
theorem stays_in_step {p : Protocol Vault} {store : StateStore} (h : Run config vault steps p)
    (htaken : p.journal = []) (hstored : store.Holds p.state p.vault entries)
    (hseqs : Protocol.Consecutive entries) (hnext : p.state.nextSeq = .ofNat entries.length)
    (messages : List Message) :
    let (later, s) := (spawn p store).serve messages
    let all := entries ++ later
    let path := Database.filePath s.store.database.path
    s.InStep all ∧ ∀ m : Message, match s.answer m with
      | (.ok response, host) => ∃ q, m.request.run m.now s.protocol = .ok response q ∧
        host.service.protocol = q.taken ∧ host.service.InStep (all ++ q.journal) ∧
        host.disk.find? path = some (.file host.service.store.database.contents.toText)
      | (.error e, host) => host.service = s ∧ host.disk.find? path = m.disk.find? path ∧
        ((∃ c, e = .governance c ∧ m.request.run m.now s.protocol = .error c s.protocol) ∨
          ∃ c a q, e = .storage c ∧ m.request.run m.now s.protocol = .ok a q ∧
            s.store.commit (.create q.state q.vault) q.journal m.disk = .error c host.disk) := by
  have hstart : (spawn p store).InStep entries := ⟨rfl, htaken, hstored, hseqs, hnext⟩
  obtain ⟨hstep, _, hrun⟩ := hstart.serve h messages
  have hrunning : ((spawn p store).serve messages).2.running = true :=
    running_serve (spawn p store) messages
  generalize (spawn p store).serve messages = served at hstep hrun hrunning
  obtain ⟨later, s⟩ := served
  refine ⟨hstep, fun m => ?_⟩
  unfold answer Call.runFrom
  cases hanswer : submit m.request m.now ⟨s, m.disk⟩ with
  | ok response host =>
    obtain ⟨q, hrequest, hprotocol, hnextstep⟩ := hstep.of_ok hrun hanswer
    exact ⟨q, hrequest, hprotocol, hnextstep, file_of_ok hanswer⟩
  | error e host =>
    refine ⟨hstep.of_error hrun hanswer, file_of_error hanswer, ?_⟩
    rcases submit_eq_error hanswer with ⟨hstopped, -, -⟩ | ⟨c, q, hrequest, rfl, -⟩ |
      ⟨c, a, q, d', hrequest, hcommit, rfl, rfl⟩
    · cases hrunning.symm.trans hstopped
    · cases hrun.request_without_trace hrequest
      exact .inl ⟨c, rfl, hrequest⟩
    · exact .inr ⟨c, a, q, rfl, hrequest, hcommit⟩

/-- A service begins with the new protocol and a store that was just set up. One account stakes
a thousand, which makes one entry; then it wants another delegate, but the directory of the
database has gone. -/
theorem stays_in_step_sample : ∃ store : StateStore,
    store.Holds Sample.start.state Sample.vault [] ∧
      let (later, s) := (spawn Sample.start store).serve [Sample.first]
      s.InStep later ∧ later.length = 1 ∧
        (s.answer ⟨.delegate Sample.alice .zero, .ofNat 20, .empty⟩).2.service = s := by
  have hstart : Run Sample.config Sample.vault [] Sample.start := .create (by rfl)
  have hseqs : Protocol.Consecutive ([] ++ []) := rfl
  obtain ⟨c, d, htextual, -, hcommit⟩ := StateStore.exists_commit Contents.textual_empty
    Sample.writable_disk (.create Sample.start.state Sample.vault) []
  have hstored : StateStore.Holds ⟨"data", c⟩ Sample.start.state Sample.vault [] :=
    StateStore.holds_of_commit (fun _ => StateStore.records_empty "data") hseqs hstart.storable
      hcommit
  -- the request succeeds, and then so does its commit
  obtain ⟨response, q, hrequest, hlength⟩ := Sample.first_eq_ok
  obtain ⟨c₁, d₁, -, -, hcommit₁⟩ := StateStore.exists_commit htextual Sample.writable_disk
    (.create q.state q.vault) q.journal
  have hanswer : submit Sample.first.request Sample.first.now
      ⟨spawn Sample.start ⟨"data", c⟩, Sample.first.disk⟩
        = .ok response ⟨⟨q.taken, ⟨"data", c₁⟩, q.state, true⟩, d₁⟩ :=
    submit_eq_ok.2 ⟨rfl, q, _, d₁, hrequest, hcommit₁, rfl⟩
  have hserve : (spawn Sample.start ⟨"data", c⟩).serve [Sample.first]
      = (q.journal, ⟨q.taken, ⟨"data", c₁⟩, q.state, true⟩) := by
    simp only [serve, recorded, answer, Call.runFrom, hanswer, List.append_nil]
    exact congrArg (fun p : Protocol Vault => (p.journal, _)) (Call.after_of_ok hrequest)
  have hmain := stays_in_step hstart rfl hstored rfl rfl [Sample.first]
  rw [hserve] at hmain
  refine ⟨⟨"data", c⟩, hstored, ?_⟩
  rw [hserve]
  obtain ⟨hstep, hnext⟩ := hmain
  refine ⟨hstep, hlength, ?_⟩
  have hlast := hnext ⟨.delegate Sample.alice .zero, .ofNat 20, .empty⟩
  unfold answer Call.runFrom at hlast ⊢
  cases hsecond : submit (.delegate Sample.alice .zero) (.ofNat 20)
      ⟨⟨q.taken, ⟨"data", c₁⟩, q.state, true⟩, .empty⟩ with
  | ok response host =>
    obtain ⟨-, _, _, _, -, hcommit, -⟩ := submit_eq_ok.1 hsecond
    exact absurd hcommit (Sample.commit_empty _ rfl _ _)
  | error e host =>
    rw [hsecond] at hlast
    exact hlast.1

end Service

end StakeGovernance
