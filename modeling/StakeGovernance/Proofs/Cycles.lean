import StakeGovernance.CommandLine.Run
import StakeGovernance.Proofs.Serving

/-!
# One process for each command

Each command is a process of its own: it opens the store, resumes the protocol from the
snapshot with handlers made anew from the settings, starts a service for one request, and is
over. All that connects one command with the next is a file. Still, the commands come to what
one protocol would come to that is never written down: nothing of it is lost or changed on the
way through the file, apart from the journal entries, which the store keeps, and these no
request looks at.

* `StakeGovernance.Call.each` – calls **one after the other**, whatever becomes of each;
* `StakeGovernance.Settings.Carried` – a protocol that was **carried on in memory**;
* `StakeGovernance.Settings.Kept` – a disk that **keeps a protocol**;
* `StakeGovernance.Settings.Abreast.cycle` – **one cycle** of a process keeps disk and memory
  abreast;
* `StakeGovernance.Settings.cycles_as_one_run` – **many processes** reply as one protocol does,
  and leave what it has become.
-/

namespace StakeGovernance

namespace Call

variable {ε δ σ τ α β : Type}

/-- The results of calls made **one after the other**, whatever becomes of each of them, and the
state after the last one. -/
def each (call : β → Call ε σ α) : List β → σ → List (Except ε α) × σ
  | [], s => ([], s)
  | b :: rest, s =>
    let (result, t) := (call b).runFrom s
    let (results, u) := each call rest t
    (result :: results, u)

/-- **Two rows of calls** whose single calls have the same results and keep a relation between
their states have the same results. -/
theorem each_of_step {R : σ → τ → Prop} {wrap : ε → δ} {call : β → Call δ σ α}
    {twin : β → Call ε τ α} (h : ∀ b s t, R s t →
      ((call b).runFrom s).1 = ((twin b).runFrom t).1.mapError wrap ∧
        R ((call b).after s) ((twin b).after t))
    (items : List β) {s : σ} {t : τ} (hst : R s t) :
    (each call items s).1 = (each twin items t).1.map (·.mapError wrap) ∧
      R (each call items s).2 (each twin items t).2 := by
  induction items generalizing s t with
  | nil => exact ⟨rfl, hst⟩
  | cons b rest ih =>
    obtain ⟨hresult, hnext⟩ := h b s t hst
    obtain ⟨hresults, hlast⟩ := ih hnext
    exact ⟨List.cons_eq_cons.2 ⟨hresult, hresults⟩, hlast⟩

end Call

/-- What **one protocol** answers to requests at their times, one after the other, and what it has
become then. -/
def Protocol.carry (p : Protocol Vault) (requests : List (Request × Timestamp)) :
    List (Except GovernanceError Response) × Protocol Vault :=
  Call.each (fun (request, now) => request.run now) requests p

/-- What **a process for each request** replies, one after the other, and the disk then. -/
def Settings.cycles (s : Settings) (requests : List (Request × Timestamp)) (d : Disk) :
    List (Except CommandError Response) × Disk :=
  Call.each (fun (request, now) => s.submit now request) requests d

/-- **Room for a new database** on a disk: its directories are there or can be made, there is no
file in the place of its own, and one can be written there. -/
structure Database.Room (d made : Disk) (path : String) : Prop where
  directories : Disk.makeDirectories path d = .ok () made
  vacant : made.find? (filePath path) = none
  writable : Writable made path

/-- A target has a handler after one was registered if it had one before, or got it now. -/
theorem Registry.hasTarget_register {r r' : Registry} {target : Address} {version : Version}
    {handler : Treasury} (h : r.register target version handler = .ok r') (other : Address) :
    r'.hasTarget other = (decide (other = target) || r.hasTarget other) := by
  unfold register at h
  split at h
  · cases h
  split at h
  · cases h
  cases h
  unfold hasTarget OrderedMap.contains
  rw [OrderedMap.get?_insert_eq]
  split
  · rename_i hsame
    simp [hsame]
  · rename_i hother
    simp [hother]

namespace Settings

variable {s : Settings} {p q : Protocol Vault} {d d' made : Disk} {c : Contents}

/-! ### In memory -/

/-- **A protocol that was carried on** in memory from its beginning: its journal was never
taken, and all capabilities in use have handlers. -/
structure Carried (s : Settings) (p : Protocol Vault) : Prop where
  run : ∃ vault steps, Run s.protocol vault steps p
  seqs : Protocol.Consecutive p.journal
  nextSeq : p.state.nextSeq = .ofNat p.journal.length
  address : p.state.address = s.protocol.address
  capabilities : ∀ target, p.state.capabilities.contains target = true →
    p.registry.hasTarget target = true

theorem Carried.register {target : Address} {version : Version} {handler : Treasury} {u : Unit}
    (h : s.Carried p)
    (hregister : Protocol.registerCapability target version handler p = .ok u q) :
    s.Carried q ∧ p.registry.register target version handler = .ok q.registry := by
  obtain ⟨vault, steps, hrun⟩ := h.run
  have hafter : (Operation.register target version handler).run.after p = q :=
    Call.after_of_ok (Call.bind_eq_ok.2 ⟨_, q, hregister, rfl⟩)
  obtain ⟨registry, hregistry, rfl⟩ := Protocol.registerCapability_eq_ok hregister
  refine ⟨⟨⟨vault, _, hafter ▸ hrun.step _⟩, h.seqs, h.nextSeq, h.address, fun other hother => ?_⟩,
    hregistry⟩
  show registry.hasTarget other = true
  rw [Registry.hasTarget_register hregistry]
  simp only at hother
  split at hother
  · rw [h.capabilities other hother, Bool.or_true]
  · by_cases hsame : other = target
    · rw [decide_eq_true hsame, Bool.true_or]
    · unfold OrderedMap.contains at hother
      rw [OrderedMap.get?_insert_eq, if_neg hsame] at hother
      rw [h.capabilities other hother, Bool.or_true]

/-- Registered one after the other, the handlers are those that are found when the protocol is
resumed. -/
theorem Carried.registerEach {target : Address} {handlers : List (Version × Treasury)}
    (h : s.Carried p) (hall : Call.forEach handlers
      (fun (version, handler) => Protocol.registerCapability target version handler) p
        = .ok () q) :
    s.Carried q ∧ handlers.foldlM (fun r (version, handler) =>
      (r.register target version handler).mapError SetupError.governance) p.registry
        = .ok q.registry := by
  induction handlers generalizing p with
  | nil =>
    obtain ⟨-, rfl⟩ := Call.pure_eq_ok.1 hall
    exact ⟨h, rfl⟩
  | cons e rest ih =>
    obtain ⟨_, next, hfirst, hrest⟩ := Call.bind_eq_ok.1 hall
    obtain ⟨hnext, hregister⟩ := h.register hfirst
    obtain ⟨hq, hothers⟩ := ih hnext hrest
    exact ⟨hq, Checked.bind_eq_ok.2 ⟨_, Checked.mapError_eq_ok.2 hregister, hothers⟩⟩

theorem outcome_eq_ok {ε σ : Type} {call : Call ε σ Unit} {a b : σ} :
    outcome call a = .ok b ↔ call a = .ok () b := by
  unfold outcome Call.runFrom
  cases call a <;> simp

/-- **The protocol at its beginning** has the handlers that the settings ask for. -/
theorem carried_genesis (h : s.genesisProtocol = .ok p) :
    s.Carried p ∧ s.registry = .ok p.registry := by
  obtain ⟨vault, -, h⟩ := Checked.bind_eq_ok.1 h
  obtain ⟨start, hcreate, h⟩ := Checked.bind_eq_ok.1 h
  have hall := outcome_eq_ok.1 (Checked.mapError_eq_ok.1 h)
  have hcreate := Checked.mapError_eq_ok.1 hcreate
  have hrun := Run.create hcreate
  obtain ⟨rfl, -⟩ := Protocol.create_eq_ok hcreate
  exact Carried.registerEach ⟨⟨vault, [], hrun⟩, rfl, rfl, rfl, fun _ h => nomatch h⟩ hall

/-- **A request that succeeds** carries a protocol on. -/
theorem Carried.requested (h : s.Carried p) {request : Request} {now : Timestamp}
    {response : Response} (hrun : request.run now p = .ok response q) :
    s.Carried q ∧ q.registry = p.registry := by
  obtain ⟨vault, steps, hsteps⟩ := h.run
  obtain ⟨later, hjournal, hseqs, hnext⟩ := hsteps.numbered_on h.seqs h.nextSeq hrun
  rw [← hjournal] at hseqs hnext
  have hhandled := (Protocol.keeps_handled_request request now).of_ok hrun (.refl p)
  refine ⟨⟨⟨vault, hsteps.requested hrun⟩, hseqs, hnext, hhandled.address.trans h.address,
    fun target htarget => ?_⟩, hhandled.registry⟩
  rw [hhandled.registry]
  rcases hhandled.capabilities target htarget with hbefore | hhas
  · exact h.capabilities target hbefore
  · exact hhas

/-- A protocol that was carried on passes the check of its handlers. -/
theorem Carried.checkHandlers (h : s.Carried p) : checkHandlers p.registry p.state = .ok () := by
  have hnone : p.state.capabilities.keys.find? (fun target => !p.registry.hasTarget target)
      = none := by
    refine List.find?_eq_none.2 fun target htarget => ?_
    obtain ⟨e, he, rfl⟩ := List.mem_map.1 htarget
    have hcontained : p.state.capabilities.contains e.1 = true := by
      unfold OrderedMap.contains
      rw [OrderedMap.get?_eq_some_iff.2 he]
      rfl
    simp [h.capabilities e.1 hcontained]
  unfold Settings.checkHandlers
  rw [hnone]

/-! ### On the disk -/

/-- **A disk that keeps a protocol**: its directories are those that were made, and the file of
the database is the text of contents that hold the protocol with all its journal. -/
structure Kept (s : Settings) (made : Disk) (p : Protocol Vault) (d : Disk) (c : Contents) :
    Prop where
  directories : made.SameDirectories d
  textual : c.Textual
  file : d.find? (Database.filePath s.dataDir) = some (.file c.toText)
  stored : StateStore.Holds ⟨s.dataDir, c⟩ p.state p.vault p.journal

theorem openAt_of (hmake : Disk.makeDirectories s.dataDir d = .ok () d')
    (hload : Database.load d' s.dataDir = .ok c) :
    StateStore.openAt s.dataDir d = .ok ⟨s.dataDir, c⟩ d' :=
  Call.bind_eq_ok.2 ⟨_, d', Database.openAt_of hmake hload, rfl⟩

section Room

variable (hroom : Database.Room d' made s.dataDir)

include hroom

/-- **The store of a disk that keeps a protocol** is found again. -/
theorem Kept.openAt (hkept : s.Kept made p d c) :
    StateStore.openAt s.dataDir d = .ok ⟨s.dataDir, c⟩ d :=
  openAt_of (Disk.makeDirectories_again hroom.directories hkept.directories)
    (Database.load_of_file hkept.file hkept.textual)

/-- **The protocol is resumed** as it was, with its journal taken. -/
theorem Carried.resume (h : s.Carried p) (hregistry : s.registry = .ok p.registry)
    (hkept : s.Kept made p d c) : s.resume d = .ok (p.taken, ⟨s.dataDir, c⟩) d := by
  obtain ⟨vault, steps, hrun⟩ := h.run
  have hopen : onStore (StateStore.openAt s.dataDir) d = .ok ⟨s.dataDir, c⟩ d :=
    Call.part_eq_ok.2 ⟨d, hkept.openAt hroom, rfl⟩
  have htaken : Protocol.ofSnapshot p.state p.vault p.registry = p.taken := by
    unfold Protocol.ofSnapshot Protocol.taken
    rw [hrun.quiet.silent.2.2]
  rw [← htaken]
  unfold Settings.resume
  refine Call.bind_eq_ok.2 ⟨_, d, hopen, ?_⟩
  refine Call.lift_bind_eq_ok.2 ⟨_, Checked.mapError_eq_ok.2 hkept.stored.snapshot, ?_⟩
  dsimp only
  refine Call.refuse_eq_ok.2 ⟨not_not.2 h.address, ?_⟩
  refine Call.lift_bind_eq_ok.2 ⟨_, hregistry, ?_⟩
  exact Call.lift_bind_eq_ok.2 ⟨_, h.checkHandlers, rfl⟩

/-- **A service for a single request** answers as the protocol that was carried on in memory, and
leaves on the disk what that has become. -/
theorem Carried.submit (h : s.Carried p) (hregistry : s.registry = .ok p.registry)
    (hkept : s.Kept made p d c) (request : Request) (now : Timestamp) :
    match request.run now p with
    | .ok response q => ∃ c' d₁, s.submit now request d = .ok response d₁ ∧ s.Kept made q d₁ c'
    | .error e q => s.submit now request d = .error (.request (.governance e)) d ∧ q = p := by
  obtain ⟨vault, steps, hsteps⟩ := h.run
  obtain ⟨_, htaken⟩ := hsteps.taken
  have hresume : onSetup s.resume d = .ok (p.taken, ⟨s.dataDir, c⟩) d :=
    Call.part_eq_ok.2 ⟨d, h.resume hroom hregistry hkept, rfl⟩
  have hstep : (Service.spawn p.taken ⟨s.dataDir, c⟩).InStep p.journal :=
    ⟨rfl, rfl, hkept.stored, h.seqs, h.nextSeq⟩
  -- the request does not see the entries that the store has taken
  have hwhole : p.taken.preceded p.journal = p := by
    unfold Protocol.preceded Protocol.taken
    rw [List.append_nil]
  have hblind : request.run now (p.taken.preceded p.journal)
      = Call.mapState (Protocol.preceded p.journal) (request.run now p.taken) :=
    Protocol.blind_request request now p.taken
  rw [hwhole] at hblind
  rw [hblind]
  unfold Settings.submit
  cases hrun : request.run now p.taken with
  | error e q =>
    cases htaken.request_without_trace hrun
    have hanswer := Service.submit_refused (s := .spawn p.taken ⟨s.dataDir, c⟩) (d := d) rfl hrun
    refine ⟨Call.bind_eq_error.2 (.inr ⟨_, d, hresume, ?_⟩), hwhole⟩
    exact Call.part_eq_error.2 ⟨_, _, hanswer, rfl, rfl⟩
  | ok response q =>
    obtain ⟨c', d₁, htextual, hsame, hcommit⟩ := StateStore.exists_commit hkept.textual
      (hroom.writable.congr hkept.directories) (.create q.state q.vault) q.journal
    have hanswer := Service.submit_eq_ok.2 ⟨rfl, q, ⟨s.dataDir, c'⟩, d₁,
      show request.run now (Service.spawn p.taken ⟨s.dataDir, c⟩).protocol = _ from hrun,
      hcommit, rfl⟩
    obtain ⟨q', hq', hprotocol, hnext⟩ := hstep.of_ok htaken hanswer
    cases hrun.symm.trans hq'
    refine ⟨c', d₁, Call.bind_eq_ok.2 ⟨_, d, hresume, ?_⟩, ?_⟩
    · exact Call.part_eq_ok.2 ⟨_, hanswer, rfl⟩
    · exact ⟨fun place => (hsame place).trans (hkept.directories place), htextual,
        Service.file_of_ok hanswer, hnext.stored⟩

/-! ### Disk and memory -/

/-- **A disk and a protocol abreast**: the protocol was carried on in memory, and the disk keeps
what it has become. -/
def Abreast (s : Settings) (made d : Disk) (p : Protocol Vault) : Prop :=
  s.Carried p ∧ s.registry = .ok p.registry ∧ ∃ c, s.Kept made p d c

/-- **One cycle** of a process replies as the protocol in memory does, and both stay abreast. -/
theorem Abreast.cycle (h : s.Abreast made d p) (request : Request) (now : Timestamp) :
    ((s.submit now request).runFrom d).1
        = ((request.run now).runFrom p).1.mapError (fun e => .request (.governance e)) ∧
      s.Abreast made ((s.submit now request).after d) ((request.run now).after p) := by
  obtain ⟨hcarried, hregistry, c, hkept⟩ := h
  have hsubmit := hcarried.submit hroom hregistry hkept request now
  cases hrun : request.run now p with
  | ok response q =>
    rw [hrun] at hsubmit
    obtain ⟨c', d₁, hsubmit, hkept'⟩ := hsubmit
    obtain ⟨hcarried', hsame⟩ := hcarried.requested hrun
    rw [Call.after_of_ok hsubmit, Call.after_of_ok hrun]
    refine ⟨?_, hcarried', hregistry.trans (congrArg _ hsame.symm), c', hkept'⟩
    simp only [Call.runFrom, hsubmit, hrun]
    rfl
  | error e q =>
    rw [hrun] at hsubmit
    obtain ⟨hsubmit, rfl⟩ := hsubmit
    rw [Call.after_of_error hsubmit, Call.after_of_error hrun]
    refine ⟨?_, hcarried, hregistry, c, hkept⟩
    simp only [Call.runFrom, hsubmit, hrun]
    rfl

/-- **Setting a store up** puts the disk abreast of the protocol at its beginning. -/
theorem setUp_abreast (hgenesis : s.genesisProtocol = .ok p) :
    ∃ store d₀, s.setUp false d' = .ok store d₀ ∧ s.Abreast made d₀ p := by
  obtain ⟨hcarried, hregistry⟩ := carried_genesis hgenesis
  obtain ⟨vault, steps, hsteps⟩ := hcarried.run
  obtain ⟨c, d₀, htextual, hsame, hcommit⟩ := StateStore.exists_commit Contents.textual_empty
    hroom.writable (.create p.state p.vault) p.journal
  have hseqs : Protocol.Consecutive ([] ++ p.journal) := hcarried.seqs
  have hstored := StateStore.holds_of_commit (fun _ => StateStore.records_empty s.dataDir) hseqs
    hsteps.storable hcommit
  have hopen : onStore (StateStore.openAt s.dataDir) d' = .ok ⟨s.dataDir, .empty⟩ made :=
    Call.part_eq_ok.2 ⟨made, openAt_of hroom.directories (Database.load_of_none hroom.vacant), rfl⟩
  have hvacate : s.vacate false ⟨s.dataDir, .empty⟩ made = .ok ⟨s.dataDir, .empty⟩ made := rfl
  have hwrite : onStore (StateStore.commit ⟨s.dataDir, .empty⟩ (.create p.state p.vault) p.journal)
      made = .ok ⟨s.dataDir, c⟩ d₀ := Call.part_eq_ok.2 ⟨d₀, hcommit, rfl⟩
  refine ⟨⟨s.dataDir, c⟩, d₀, ?_, hcarried, hregistry, c, hsame, htextual,
    StateStore.file_of_commit hcommit, hstored⟩
  exact Call.bind_eq_ok.2 ⟨_, made, hopen, Call.bind_eq_ok.2 ⟨_, made, hvacate,
    Call.lift_bind_eq_ok.2 ⟨p, hgenesis, hwrite⟩⟩⟩

end Room

end Settings

/-! ### A small store -/

namespace Sample

/-- Settings for the small protocol, with a treasury. -/
def settings : Settings where
  name := "sample"
  dataDir := "data"
  protocol := config
  treasury := ⟨true, ⟨List.replicate 20 7, rfl⟩, ⟨List.replicate 20 8, rfl⟩, Word.ofNat 100,
    Word.ofNat 10⟩
  genesis := [⟨alice, Word.ofNat 5000⟩]
  logging := .default

/-- An empty disk has room. -/
theorem room_empty : Database.Room .empty disk "data" where
  directories := by
    have hdone : ((Disk.makeDirectories "data").runFrom .empty).1 = .ok () := by decide +kernel
    have hmade : (Disk.makeDirectories "data").after .empty = disk := by decide +kernel
    exact hmade ▸ Call.eq_ok_of_runFrom hdone
  vacant := by decide +kernel
  writable := writable_disk

/-- A stake, and the attempt to take it back at once. -/
def requests : List (Request × Timestamp) := [
  (.stake alice (Word.ofNat 1000) (.ofNat (100 * day)) alice, .ofNat 10),
  (.withdraw alice (.ofNat (98 * day)), .ofNat 20)]

/-- What the protocol answers that is kept in memory: whether each request succeeded, and how many
entries there are in the end. -/
theorem genesis_eq_ok : ∃ p, settings.genesisProtocol = .ok p ∧
    let (answers, q) := p.carry requests
    answers.map (·.toOption.isSome) = [true, false] ∧ q.journal.length = 1 := by
  have hall : (settings.genesisProtocol.toOption.map fun p =>
      let (answers, q) := p.carry requests
      (answers.map (·.toOption.isSome), q.journal.length)) = some ([true, false], 1) := by
    decide +kernel
  cases hgenesis : settings.genesisProtocol with
  | ok p =>
    rw [hgenesis] at hall
    obtain ⟨hanswers, hlength⟩ := Prod.mk.inj (Option.some.inj hall)
    exact ⟨p, rfl, hanswers, hlength⟩
  | error e =>
    rw [hgenesis] at hall
    cases hall

end Sample

namespace Settings

variable {s : Settings} {p : Protocol Vault} {d made : Disk}

/-! ### The main result -/

/-- **Many processes come to what one protocol comes to.** Let the protocol of some settings have
a beginning, and let there be room for its store on a disk. Then the store can be set up, and
after that, for any requests at any times, each carried out by a process of its own that resumes
the protocol from its store: the replies are those of the protocol at its beginning if it is
kept in memory and carries the requests out one after the other. In the end the store is found
to hold the state, the vault and the whole journal of that protocol, and it is resumed from the
store with all that it has, apart from the journal. -/
theorem cycles_as_one_run (hgenesis : s.genesisProtocol = .ok p)
    (hroom : Database.Room d made s.dataDir) (requests : List (Request × Timestamp)) :
    ∃ store d₀, s.setUp false d = .ok store d₀ ∧
      let (replies, d₁) := s.cycles requests d₀
      let (answers, q) := p.carry requests
      replies = answers.map (·.mapError fun e => .request (.governance e)) ∧
        ∃ store, StateStore.openAt s.dataDir d₁ = .ok store d₁ ∧
          store.Holds q.state q.vault q.journal ∧ s.resume d₁ = .ok (q.taken, store) d₁ := by
  obtain ⟨store, d₀, hsetup, habreast⟩ := setUp_abreast hroom hgenesis
  refine ⟨store, d₀, hsetup, ?_⟩
  obtain ⟨hreplies, hcarried, hregistry, c, hkept⟩ :
      (s.cycles requests d₀).1
          = (p.carry requests).1.map (·.mapError fun e => .request (.governance e)) ∧
        s.Abreast made (s.cycles requests d₀).2 (p.carry requests).2 :=
    Call.each_of_step (fun r _ _ h => h.cycle hroom r.1 r.2) requests habreast
  exact ⟨hreplies, ⟨s.dataDir, c⟩, hkept.openAt hroom, hkept.stored,
    hcarried.resume hroom hregistry hkept⟩

/-- From the empty disk on, an account stakes and tries to take its stake back too early: the
first process replies that it was done, the second one that it was not, and one entry is in the
journal in the end. -/
theorem cycles_as_one_run_sample : ∃ p store d₀,
    Sample.settings.genesisProtocol = .ok p ∧
      Sample.settings.setUp false .empty = .ok store d₀ ∧
      let (replies, d₁) := Sample.settings.cycles Sample.requests d₀
      replies.map (·.toOption.isSome) = [true, false] ∧
        ∃ (store : StateStore) (q : Protocol Vault), StateStore.openAt "data" d₁ = .ok store d₁ ∧
          q.journal.length = 1 ∧ store.Holds q.state q.vault q.journal := by
  obtain ⟨p, hgenesis, hanswers, hlength⟩ := Sample.genesis_eq_ok
  obtain ⟨store, d₀, hsetup, hreplies, last, hopen, hholds, -⟩ :=
    cycles_as_one_run hgenesis Sample.room_empty Sample.requests
  refine ⟨p, store, d₀, hgenesis, hsetup, ?_, last, _, hopen, hlength, hholds⟩
  rw [hreplies, List.map_map, ← hanswers]
  refine List.map_congr_left fun answer _ => ?_
  cases answer <;> rfl

end Settings

end StakeGovernance
