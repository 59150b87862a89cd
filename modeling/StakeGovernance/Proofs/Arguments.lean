import StakeGovernance.Proofs.Calls
import StakeGovernance.Proposal.Command

/-!
# A command has one written form

The arguments of a command are a row of fields with nothing between them, so all that tells a field
from the next one is its width. That is enough: a reader of a field is *exact* for its writer, which
is to say that it takes what was written, whatever comes after it, and takes nothing that was not
written. Numbers have their least significant byte first and amounts their most significant one, but
this makes no difference to anything but the reader and the writer of the single field.

So the bytes of the arguments are read back as the command, and there are no other bytes that are
read as that command: bytes that end early, that go on, or that stand under another signature are
refused. A command that waits for its execution is found by the digest of these bytes, and a second
way to write it would be a second entry of the queue.

* `StakeGovernance.Exact` – a reader that is **exact** for a writer;
* `StakeGovernance.exact_readWord`, `StakeGovernance.exact_readAddress`,
  `StakeGovernance.exact_readAmount` – the **fields**;
* `StakeGovernance.readWhole_eq_ok`, `StakeGovernance.readPair_eq_ok` – **rows** of one field and of
  two;
* `StakeGovernance.Command.decode_eq_ok_iff_written` – a command has **one written form**.
-/

namespace StakeGovernance

/-- **A reader that is exact for a writer**: it takes the bytes that are written for a value and
leaves what follows them, and it takes no other bytes. -/
def Exact {α : Type} (read : Bytes → Read α) (write : α → Bytes) : Prop :=
  ∀ bs a rest, read bs = .ok (a, rest) ↔ bs = write a ++ rest

section Fields

variable {α β γ : Type} {read : Bytes → Read α} {write : α → Bytes} {a b : α}
  {bs rest rest' : Bytes}

/-! ### Fields -/

/-- **A field of a fixed width is read exactly** if its reader takes so many bytes, those of the
value that it gives, and if the bytes tell the value. -/
theorem exact_of_width {width : Nat}
    (hreads : ∀ bs, width ≤ bs.length → ∃ a, read bs = .ok (a, bs.drop width) ∧
      write a = bs.take width)
    (hrefuses : ∀ bs, ¬ width ≤ bs.length → ∃ e, read bs = .error e)
    (hwidth : ∀ a, (write a).length = width) (hinj : ∀ a b, write a = write b → a = b) :
    Exact read write := by
  intro bs a rest
  constructor
  · intro h
    by_cases hlength : width ≤ bs.length
    · obtain ⟨b, hread, hb⟩ := hreads bs hlength
      cases hread.symm.trans h
      rw [hb, List.take_append_drop]
    · obtain ⟨e, hread⟩ := hrefuses bs hlength
      cases hread.symm.trans h
  · rintro rfl
    have hlength : width ≤ (write a ++ rest).length := by
      rw [List.length_append, hwidth]
      exact Nat.le_add_right ..
    obtain ⟨b, hread, hb⟩ := hreads _ hlength
    rw [List.take_left' (hwidth a)] at hb
    rw [hread, hinj b a hb, List.drop_left' (hwidth a)]

/-- **A field that is read exactly is told from what follows it.** -/
theorem Exact.append_inj (h : Exact read write) (heq : write a ++ rest = write b ++ rest') :
    a = b ∧ rest = rest' := by
  have hread := (h _ a rest).2 rfl
  rw [(h _ b rest').2 heq] at hread
  cases hread
  exact ⟨rfl, rfl⟩

/-- **Integers**, their least significant byte first. -/
theorem exact_readWord (width : Nat) :
    Exact (readWord width) fun w => littleEndian width w.toNat := by
  refine exact_of_width (fun bs hlength => ?_) (fun bs hshort => ⟨_, dif_neg hshort⟩)
    (fun w => length_littleEndian width _) fun v w h => ?_
  · refine ⟨_, dif_pos hlength, ?_⟩
    have hback := littleEndian_ofLittleEndian (bs.take width)
    rwa [List.length_take_of_le hlength] at hback
  · have hback := congrArg ofLittleEndian h
    rw [ofLittleEndian_littleEndian v.toNat_lt, ofLittleEndian_littleEndian w.toNat_lt] at hback
    exact Word.ext hback

/-- **Addresses**, as they are. -/
theorem exact_readAddress : Exact readAddress Address.bytes :=
  exact_of_width (fun _ hlength => ⟨_, dif_pos hlength, rfl⟩) (fun _ hshort => ⟨_, dif_neg hshort⟩)
    Address.length_bytes fun _ _ => Address.ext

/-- **Amounts**, their most significant byte first. -/
theorem exact_readAmount : Exact readAmount Amount.toBytes := by
  refine exact_of_width (fun bs hlength => ?_) (fun bs hshort => ⟨_, dif_neg hshort⟩)
    (fun a => length_bigEndian 12 _) fun a b h => ?_
  · refine ⟨_, dif_pos hlength, ?_⟩
    have hback := bigEndian_ofBigEndian (bs.take 12)
    rwa [List.length_take_of_le hlength] at hback
  · have hback := congrArg ofBigEndian h
    unfold Amount.toBytes at hback
    rw [ofBigEndian_bigEndian a.toNat_lt, ofBigEndian_bigEndian b.toNat_lt] at hback
    exact Word.ext hback

/-! ### Rows of fields -/

theorem readEnd_eq_ok {x : Unit} : readEnd rest = .ok x ↔ rest = [] := by
  cases rest with
  | nil => exact ⟨fun _ => rfl, fun _ => rfl⟩
  | cons b rest => exact ⟨nofun, nofun⟩

/-- **A row of one field** is what is written for its value, and nothing more. -/
theorem readWhole_eq_ok (h : Exact read write) : readWhole read bs = .ok a ↔ bs = write a := by
  unfold readWhole
  rw [Checked.bind_eq_ok]
  constructor
  · rintro ⟨⟨b, rest⟩, hread, hend⟩
    obtain ⟨_, hnothing, hpure⟩ := Checked.bind_eq_ok.1 hend
    cases hpure
    rw [(h _ _ _).1 hread, readEnd_eq_ok.1 hnothing, List.append_nil]
  · rintro rfl
    refine ⟨(a, []), (h _ _ _).2 (List.append_nil _).symm, ?_⟩
    exact Checked.bind_eq_ok.2 ⟨(), readEnd_eq_ok.2 rfl, rfl⟩

variable {readNext : Bytes → Read β} {writeNext : β → Bytes} {c : γ}

/-- A row of one field, for something that is made of its value. -/
theorem map_readWhole_eq_ok (h : Exact read write) {f : α → γ} :
    f <$> readWhole read bs = .ok c ↔ ∃ a, f a = c ∧ bs = write a := by
  rw [map_eq_pure_bind, Checked.bind_eq_ok]
  refine exists_congr fun a => ?_
  rw [readWhole_eq_ok h, Checked.pure_eq_ok]
  exact and_comm

/-- **A row of two fields**, for something that is made of their values. -/
theorem readPair_eq_ok (h : Exact read write) (hnext : Exact readNext writeNext)
    {f : α → β → γ} :
    (do
      let (a, rest) ← read bs
      let b ← readWhole readNext rest
      return f a b : Except ReadError γ) = .ok c ↔
        ∃ a b, f a b = c ∧ bs = write a ++ writeNext b := by
  rw [Checked.bind_eq_ok]
  constructor
  · rintro ⟨⟨a, rest⟩, hread, hrest⟩
    obtain ⟨b, hwhole, hpure⟩ := Checked.bind_eq_ok.1 hrest
    refine ⟨a, b, Checked.pure_eq_ok.1 hpure, ?_⟩
    rw [(h _ _ _).1 hread, (readWhole_eq_ok hnext).1 hwhole]
  · rintro ⟨a, b, rfl, rfl⟩
    refine ⟨(a, writeNext b), (h _ _ _).2 rfl, ?_⟩
    exact Checked.bind_eq_ok.2 ⟨b, (readWhole_eq_ok hnext).2 rfl, rfl⟩

end Fields

/-! ### Commands -/

namespace Command

variable {signature : String} {data : Bytes} {c : Command}

theorem signature_mem_signatures (c : Command) : c.signature ∈ signatures := by
  cases c <;> simp [signature, signatures]

theorem decode_eq_ok : decode signature data = .ok c ↔ readArgs? signature data = some (.ok c) := by
  unfold decode
  split
  · rename_i hunknown
    rw [hunknown]
    exact ⟨nofun, nofun⟩
  · rename_i hbad
    rw [hbad]
    exact ⟨nofun, nofun⟩
  · rename_i hread
    rw [hread]
    simp

/-- **What is written is read.** -/
theorem readArgs?_encodeArgs (c : Command) :
    readArgs? c.signature c.encodeArgs = some (.ok c) := by
  cases c with
  | setVotingDelay delay | setTimelockDelay delay =>
    exact congrArg some ((map_readWhole_eq_ok (exact_readWord 8)).2 ⟨delay, rfl, rfl⟩)
  | setVotingPeriod period =>
    exact congrArg some ((map_readWhole_eq_ok (exact_readWord 8)).2 ⟨period, rfl, rfl⟩)
  | setProposalThreshold power | setQuorumVotes power =>
    exact congrArg some ((map_readWhole_eq_ok (exact_readWord 16)).2 ⟨power, rfl, rfl⟩)
  | setGuardian guardian =>
    exact congrArg some ((map_readWhole_eq_ok exact_readAddress).2 ⟨guardian, rfl, rfl⟩)
  | treasuryTransfer target amount =>
    exact congrArg some
      ((readPair_eq_ok exact_readAddress exact_readAmount).2 ⟨target, amount, rfl, rfl⟩)
  | upgradeCapability target version =>
    exact congrArg some
      ((readPair_eq_ok exact_readAddress (exact_readWord 4)).2 ⟨target, version, rfl, rfl⟩)

/-- **Nothing else is read**, under any signature. -/
theorem written_of_readArgs? (h : readArgs? signature data = some (.ok c)) :
    signature = c.signature ∧ c.encodeArgs = data := by
  unfold readArgs? at h
  split at h
  · obtain ⟨delay, rfl, rfl⟩ := (map_readWhole_eq_ok (exact_readWord 8)).1 (Option.some.inj h)
    exact ⟨rfl, rfl⟩
  · obtain ⟨period, rfl, rfl⟩ := (map_readWhole_eq_ok (exact_readWord 8)).1 (Option.some.inj h)
    exact ⟨rfl, rfl⟩
  · obtain ⟨power, rfl, rfl⟩ := (map_readWhole_eq_ok (exact_readWord 16)).1 (Option.some.inj h)
    exact ⟨rfl, rfl⟩
  · obtain ⟨power, rfl, rfl⟩ := (map_readWhole_eq_ok (exact_readWord 16)).1 (Option.some.inj h)
    exact ⟨rfl, rfl⟩
  · obtain ⟨delay, rfl, rfl⟩ := (map_readWhole_eq_ok (exact_readWord 8)).1 (Option.some.inj h)
    exact ⟨rfl, rfl⟩
  · obtain ⟨guardian, rfl, rfl⟩ := (map_readWhole_eq_ok exact_readAddress).1 (Option.some.inj h)
    exact ⟨rfl, rfl⟩
  · obtain ⟨target, amount, rfl, rfl⟩ :=
      (readPair_eq_ok exact_readAddress exact_readAmount).1 (Option.some.inj h)
    exact ⟨rfl, rfl⟩
  · obtain ⟨target, version, rfl, rfl⟩ :=
      (readPair_eq_ok exact_readAddress (exact_readWord 4)).1 (Option.some.inj h)
    exact ⟨rfl, rfl⟩
  · cases h

/-- **A command has one written form.** A signature and a row of bytes are read as a command exactly
if they are its signature and the bytes of its arguments. So whatever is written is read as it was
meant, and all else is refused: bytes that end within a field or go on after the last one, bytes
that are no form of the arguments, and signatures that no command has. -/
theorem decode_eq_ok_iff_written (signature : String) (data : Bytes) (c : Command) :
    decode signature data = .ok c ↔ signature = c.signature ∧ c.encodeArgs = data := by
  rw [decode_eq_ok]
  constructor
  · exact written_of_readArgs?
  · rintro ⟨rfl, rfl⟩
    exact readArgs?_encodeArgs c

end Command

end StakeGovernance
