import StakeGovernance.CommandLine.Run
import StakeGovernance.Proofs.Admission
import StakeGovernance.Proofs.Cycles
import StakeGovernance.Proofs.Wordings

/-!
# Every command can be given, and arrives

What a command that is given on the command line is aimed at is not given but follows from the
command. Where an action may be aimed is decided a second time, by the protocol when the action is
proposed. The two decisions agree: the protocol has the address of the settings, and the treasury is
one of its capabilities from its beginning on, because handlers are registered for it; and sound
settings do not give both the same address. So whatever is read as an action may be proposed, if
there is a treasury at all.

* `StakeGovernance.Settings.actionOfArgument_of_written` – a command **is read** in whichever way it
  is written;
* `StakeGovernance.ProposalRequest.actions_withCommand` – its action is **put behind** the others;
* `StakeGovernance.Settings.admits_targetOf` – it is **admitted where it is aimed**;
* `StakeGovernance.Settings.checkTarget_of_proposalRequest` – so are **all actions** of a proposal
  that is given on the command line;
* `StakeGovernance.Settings.actions_are_expressed_and_admitted` – both, for all **sound settings**.
-/

namespace StakeGovernance

/-! ### Actions of commands -/

/-- The arguments of a command are short. -/
theorem Command.length_encodeArgs_le (c : Command) : c.encodeArgs.length ≤ 32 := by
  cases c <;> simp [encodeArgs, Amount.toBytes, length_littleEndian, length_bigEndian,
    Address.length_bytes]

/-- **The command of its action** is found again, unless it is aimed at the zero address. -/
theorem ProposalAction.command_ofCommand {target : Address} (value : Amount) {c : Command}
    (h : target.isZero = false) : (ofCommand target value c).command = .ok c := by
  have hshort : ¬ maxDataLength < c.encodeArgs.length :=
    Nat.not_lt.2 (c.length_encodeArgs_le.trans (by decide))
  rw [command, ofCommand]
  rw [if_neg (by simp [h]), if_neg hshort]
  exact Command.decode_eq_ok.2 c.readArgs?_encodeArgs

namespace ProposalRequest

/-- A row more is an action more. -/
theorem zipActions_append {targets : List Address} {values : List Amount} {signatures : List String}
    {calldatas : List Bytes} (hvalues : values.length = targets.length)
    (hsignatures : signatures.length = targets.length)
    (hcalldatas : calldatas.length = targets.length) (action : ProposalAction) :
    zipActions (targets ++ [action.target]) (values ++ [action.value])
        (signatures ++ [action.signature]) (calldatas ++ [action.data])
      = zipActions targets values signatures calldatas ++ [action] := by
  induction targets generalizing values signatures calldatas with
  | nil =>
    cases List.length_eq_zero_iff.1 hvalues
    cases List.length_eq_zero_iff.1 hsignatures
    cases List.length_eq_zero_iff.1 hcalldatas
    rfl
  | cons t ts ih =>
    obtain ⟨v, vs, rfl⟩ := List.exists_cons_of_length_eq_add_one hvalues
    obtain ⟨s, ss, rfl⟩ := List.exists_cons_of_length_eq_add_one hsignatures
    obtain ⟨d, ds, rfl⟩ := List.exists_cons_of_length_eq_add_one hcalldatas
    simp only [List.length_cons, Nat.add_right_cancel_iff] at hvalues hsignatures hcalldatas
    exact congrArg (_ :: ·) (ih hvalues hsignatures hcalldatas)

/-- **The action of a command** is put behind those of a request. -/
theorem actions_withCommand (r : ProposalRequest) {actions : List ProposalAction}
    (h : r.actions = .ok actions) (target : Address) (value : Amount) (c : Command) :
    (r.withCommand target value c).actions = .ok (actions ++ [.ofCommand target value c]) := by
  rw [ProposalRequest.actions] at h
  split at h
  · cases h
  rename_i hlengths
  cases h
  obtain ⟨hvalues, hsignatures, hcalldatas⟩ :
      r.values.length = r.targets.length ∧ r.signatures.length = r.targets.length ∧
        r.calldatas.length = r.targets.length := by
    omega
  rw [ProposalRequest.actions]
  simp only [withCommand, List.length_append, List.length_singleton, hvalues, hsignatures,
    hcalldatas, ne_eq, not_true_eq_false, or_self, if_false]
  exact congrArg _ (zipActions_append hvalues hsignatures hcalldatas (.ofCommand target value c))

end ProposalRequest

/-- A capability that got a handler is one of the protocol. -/
theorem Protocol.contains_of_register {ν : Type} {p q : Protocol ν} {target : Address}
    {version : Version} {handler : Treasury} {u : Unit}
    (h : registerCapability target version handler p = .ok u q) :
    q.state.capabilities.contains target = true := by
  obtain ⟨registry, -, rfl⟩ := registerCapability_eq_ok h
  show OrderedMap.contains (if _ then _ else _) target = true
  split
  · assumption
  · rw [OrderedMap.contains, OrderedMap.get?_insert_eq, if_pos rfl]
    rfl

namespace Settings

variable {s : Settings} {p q : Protocol Vault} {c : Command} {argument : String}

/-! ### Reading commands -/

/-- **A command is read** in whichever way it is written, and its target follows from it. -/
theorem actionOfArgument_of_written (h : c.Written s.treasury.capability argument) :
    s.actionOfArgument argument = .ok (s.targetOf c, c) := by
  obtain ⟨name, spellings, parts, hname, hspelled, hpadded, rfl⟩ := h
  have hplain := Argument.plain_of_spelled hspelled
  have hsome : spellings ≠ [] := by
    rintro rfl
    exact c.arguments_ne_nil (List.forall₂_nil_right_iff.1 hspelled)
  rw [actionOfArgument, partsOfArgument_of_padded c.plain_signature hplain hsome hname hpadded]
  exact Checked.bind_eq_ok.2 ⟨c, Command.ofParts_of_spelled _ hspelled, rfl⟩

/-- The target of an action is that of its command. -/
theorem targetOf_of_action {target : Address} (h : s.actionOfArgument argument = .ok (target, c)) :
    target = s.targetOf c := by
  obtain ⟨_, -, hpure⟩ := Checked.bind_eq_ok.1 h
  cases hpure
  rfl

/-! ### Admitting commands -/

/-- **Sound settings** have an address for the protocol, and another one for the treasury. -/
theorem addresses_of_validate (h : s.validate = .ok ()) : s.protocol.address.isZero = false ∧
    (s.treasury.enabled = true → s.treasury.capability.isZero = false ∧
      s.treasury.capability ≠ s.protocol.address) := by
  obtain ⟨-, h⟩ := Checked.refuse_eq_ok.1 h
  obtain ⟨_, -, h⟩ := Checked.bind_eq_ok.1 h
  obtain ⟨hprotocol, h⟩ := Checked.refuse_eq_ok.1 h
  -- the parameters of the staking, of the votes and of the timelock
  obtain ⟨_, -, h⟩ := Checked.bind_eq_ok.1 h
  obtain ⟨_, -, h⟩ := Checked.bind_eq_ok.1 h
  obtain ⟨_, -, h⟩ := Checked.bind_eq_ok.1 h
  refine ⟨Bool.eq_false_iff.2 hprotocol, fun henabled => ?_⟩
  rw [if_pos henabled] at h
  obtain ⟨hzero, h⟩ := Checked.refuse_eq_ok.1 h
  obtain ⟨hother, -⟩ := Checked.refuse_eq_ok.1 h
  rw [Bool.or_eq_true, not_or] at hzero
  exact ⟨Bool.eq_false_iff.2 hzero.1, hother⟩

/-- A capability that got handlers is one of the protocol. -/
theorem contains_of_registerEach {target : Address} {handlers : List (Version × Treasury)}
    (hsome : handlers ≠ []) (h : Call.forEach handlers
      (fun e => Protocol.registerCapability target e.1 e.2) p = .ok () q) :
    q.state.capabilities.contains target = true := by
  induction handlers generalizing p with
  | nil => exact absurd rfl hsome
  | cons e rest ih =>
    obtain ⟨_, next, hfirst, hrest⟩ := Call.bind_eq_ok.1 h
    rcases rest with _ | ⟨f, rest⟩
    · obtain ⟨-, rfl⟩ := Call.pure_eq_ok.1 hrest
      exact Protocol.contains_of_register hfirst
    · exact ih (List.cons_ne_nil _ _) hrest

/-- **The treasury is a capability** of the protocol at its beginning. -/
theorem contains_treasury (henabled : s.treasury.enabled = true) (h : s.genesisProtocol = .ok p) :
    p.state.capabilities.contains s.treasury.capability = true := by
  obtain ⟨vault, -, h⟩ := Checked.bind_eq_ok.1 h
  obtain ⟨start, -, h⟩ := Checked.bind_eq_ok.1 h
  have hall := outcome_eq_ok.1 (Checked.mapError_eq_ok.1 h)
  have hhandlers : s.handlers = s.treasury.handlers := if_pos henabled
  have hsome : s.handlers ≠ [] := by
    rw [hhandlers]
    exact List.cons_ne_nil _ _
  exact contains_of_registerEach hsome hall

section Admission

variable (hvalid : s.validate = .ok ()) (henabled : s.treasury.enabled = true)
  (hgenesis : s.genesisProtocol = .ok p)

include hvalid henabled

/-- No command is aimed at the zero address. -/
theorem isZero_targetOf (c : Command) : (s.targetOf c).isZero = false := by
  obtain ⟨hprotocol, htreasury⟩ := addresses_of_validate hvalid
  rw [targetOf]
  split
  · exact hprotocol
  · exact (htreasury henabled).1

include hgenesis

/-- **A command is admitted where it is aimed**, by the protocol at its beginning. -/
theorem admits_targetOf (c : Command) : p.state.Admits (s.targetOf c) c := by
  obtain ⟨-, htreasury⟩ := addresses_of_validate hvalid
  have haddress : p.state.address = s.protocol.address := (carried_genesis hgenesis).1.address
  rw [ProtocolState.Admits, haddress, targetOf]
  by_cases hown : c.isGovernance = true
  · rw [if_pos hown, if_pos rfl]
    exact hown
  · rw [if_neg hown, if_neg (htreasury henabled).2]
    exact ⟨Bool.eq_false_iff.2 hown, contains_treasury henabled hgenesis⟩

/-- **The action of a command** passes the check of the protocol at its beginning. -/
theorem checkTarget_ofCommand (value : Amount) (c : Command) :
    p.state.checkTarget (.ofCommand (s.targetOf c) value c) = .ok () :=
  ProtocolState.checkTarget_eq_ok.2 ⟨c,
    ProposalAction.command_ofCommand value (isZero_targetOf hvalid henabled c),
    admits_targetOf hvalid henabled hgenesis c⟩

/-- **Any proposal that is given on the command line** has only actions that pass this check. -/
theorem checkTarget_of_proposalRequest {description : String} {arguments : List String}
    {r : ProposalRequest} (h : s.proposalRequest description arguments = .ok r) :
    ∃ actions, r.actions = .ok actions ∧
      ∀ action ∈ actions, p.state.checkTarget action = .ok () := by
  -- from any request on whose actions pass it
  have hrun : ∀ (start : ProposalRequest) before, start.actions = .ok before →
      (∀ action ∈ before, p.state.checkTarget action = .ok ()) →
      arguments.foldlM (fun request argument => do
        let action ← (s.actionOfArgument argument).mapError CommandError.action
        return request.withCommand action.1 .zero action.2) start = .ok r →
      ∃ actions, r.actions = .ok actions ∧
        ∀ action ∈ actions, p.state.checkTarget action = .ok () := by
    clear h
    induction arguments with
    | nil =>
      intro start before hactions hall h
      cases h
      exact ⟨before, hactions, hall⟩
    | cons argument rest ih =>
      intro start before hactions hall h
      obtain ⟨next, hnext, hrest⟩ := Checked.bind_eq_ok.1 h
      obtain ⟨⟨target, c⟩, hread, hpure⟩ := Checked.bind_eq_ok.1 hnext
      cases hpure
      obtain rfl := targetOf_of_action (Checked.mapError_eq_ok.1 hread)
      refine ih _ _ (start.actions_withCommand hactions _ .zero c) ?_ hrest
      refine List.forall_mem_append.2 ⟨hall, List.forall_mem_singleton.2 ?_⟩
      exact checkTarget_ofCommand hvalid henabled hgenesis .zero c
  exact hrun (.empty description) [] rfl (fun _ hnone => nomatch hnone) h

end Admission

/-! ### The main result -/

/-- **Every command can be given, and arrives.** Under sound settings, a command is read in
whichever way it is written, and aimed at the protocol if it is one on the protocol itself, and at
the treasury otherwise; and there is a way to write it, with its addresses in either form. If there
is a treasury and the protocol has a beginning, then whatever text is read as an action, the action
that is put behind any others passes the check of where it is aimed. -/
theorem actions_are_expressed_and_admitted (hvalid : s.validate = .ok ()) :
    (∀ (c : Command) (argument : String), c.Written s.treasury.capability argument →
      s.actionOfArgument argument
        = .ok (if c.isGovernance then s.protocol.address else s.treasury.capability, c)) ∧
    (∀ c : Command, c.Written s.treasury.capability (c.toArgument Address.toText) ∧
      c.Written s.treasury.capability (c.toArgument Address.toHexText)) ∧
    (s.treasury.enabled = true → ∀ p, s.genesisProtocol = .ok p → ∀ argument target c,
      s.actionOfArgument argument = .ok (target, c) →
        ∀ (r : ProposalRequest) actions value, r.actions = .ok actions →
          ∃ action, (r.withCommand target value c).actions = .ok (actions ++ [action]) ∧
            p.state.checkTarget action = .ok ()) := by
  refine ⟨fun c argument hwritten => actionOfArgument_of_written hwritten, fun c => ⟨?_, ?_⟩, ?_⟩
  · exact Command.written_toArgument Address.spells_toText _ c
  · exact Command.written_toArgument Address.spells_toHexText _ c
  · intro henabled p hgenesis argument target c hread r actions value hactions
    obtain rfl := targetOf_of_action hread
    exact ⟨_, r.actions_withCommand hactions _ value c,
      checkTarget_ofCommand hvalid henabled hgenesis value c⟩

/-- A payment with blanks around its parts, zeros in front of the amount and a letter in upper case
in the digits of the account: it is read as it was meant, and its action passes the check. -/
theorem actions_are_expressed_and_admitted_sample :
    let argument := " TreasuryTransfer= 0x00000000000000000000000000000000000000Aa , 00500 "
    let c : Command := .treasuryTransfer ⟨List.replicate 19 0 ++ [0xaa], rfl⟩ (Word.ofNat 500)
    Sample.settings.actionOfArgument argument = .ok (Sample.settings.treasury.capability, c) ∧
      ∃ p, Sample.settings.genesisProtocol = .ok p ∧ ∃ action,
        ((ProposalRequest.empty "payment").withCommand Sample.settings.treasury.capability .zero
          c).actions = .ok [action] ∧ p.state.checkTarget action = .ok () := by
  intro argument c
  have hvalid : Sample.settings.validate = .ok () := by decide +kernel
  have hwritten : c.Written Sample.settings.treasury.capability argument := by
    refine ⟨" TreasuryTransfer", ["0x00000000000000000000000000000000000000Aa", "00500"],
      [" 0x00000000000000000000000000000000000000Aa ", " 00500 "], ?_, ?_, ?_, by decide +kernel⟩
    · exact ⟨[' '], [], by decide, by decide, by decide +kernel⟩
    · refine .cons ⟨by decide +kernel, by decide +kernel⟩ (.cons ?_ .nil)
      exact Decimal.ofDigits?_eq_some_iff.1 (by decide +kernel)
    · exact .cons ⟨[' '], [' '], by decide, by decide, by decide +kernel⟩
        (.cons ⟨[' '], [' '], by decide, by decide, by decide +kernel⟩ .nil)
  obtain ⟨hread, -, hadmitted⟩ := actions_are_expressed_and_admitted hvalid
  obtain ⟨p, hgenesis, -⟩ := Sample.genesis_eq_ok
  have hargument := hread c argument hwritten
  exact ⟨hargument, p, hgenesis, hadmitted rfl p hgenesis argument _ c hargument _ [] .zero rfl⟩

end Settings

end StakeGovernance
