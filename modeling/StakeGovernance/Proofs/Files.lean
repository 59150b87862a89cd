import StakeGovernance.Proofs.Calls
import StakeGovernance.Proofs.Columns
import StakeGovernance.Proofs.Maps
import StakeGovernance.Store.Database

/-!
# The file of a database

A database is written into a draft first, and the draft is then moved in place of the file. So
the file holds the new contents if all goes well, and is what it was before if anything does not.
Files come and go without any path leading elsewhere, because a file is never put where a
directory is.

* `StakeGovernance.Disk.IsName` – **names** that lead to a place of their own;
* `StakeGovernance.Disk.SameDirectories` – disks on which **paths lead to the same places**;
* `StakeGovernance.Disk.keeps_makeDirectories`, `StakeGovernance.Disk.makeDirectories_again` –
  directories are made **beside what is there**, and **made once**;
* `StakeGovernance.Database.persist_eq_ok`, `StakeGovernance.Database.persist_eq_error` – what
  **writing** leaves in the file;
* `StakeGovernance.Database.Writable` – a disk on which a database **can be written**;
* `StakeGovernance.Database.writeBatch_eq_ok`, `StakeGovernance.Database.clear_eq_ok` – **changes**
  of a database;
* `StakeGovernance.Database.load_of_file` – the file is **read as it was written**.
-/

namespace StakeGovernance

namespace Disk

variable {d d' : Disk} {p q : Place} {path name : String}

/-! ### Paths -/

/-- **A name of its own**, that leads to a new place in any directory. -/
structure IsName (name : String) : Prop where
  nonempty : name ≠ ""
  slash : '/' ∉ name.toList
  dot : name ≠ "."
  dots : name ≠ ".."

theorem IsName.names_eq (h : IsName name) : names name = [name] := by
  unfold names
  rw [List.splitOn_eq_singleton h.slash, List.map_singleton, String.ofList_toList]
  simp [h.nonempty]

theorem names_slash (a b : String) : names (a ++ "/" ++ b) = names a ++ names b := by
  unfold names
  have hsplit : (a ++ "/" ++ b).toList = a.toList ++ '/' :: b.toList := by simp
  rw [hsplit, List.splitOn_append_cons_self, List.map_append, List.filter_append]

theorem names_empty : names "" = [] := by decide

/-- A path that ends in a slash, without it. -/
theorem exists_of_endsInSlash (h : endsInSlash path = true) : ∃ rest, path = rest ++ "/" := by
  have hlast : path.toList.getLast? = some '/' := of_decide_eq_true h
  obtain ⟨cs, hcs⟩ := List.getLast?_eq_some_iff.1 hlast
  refine ⟨String.ofList cs, String.toList_inj.1 ?_⟩
  rw [hcs]
  simp

/-- **What is called by a name in a directory** is looked up under that name, after the names that
lead to the directory. -/
theorem IsName.names_join (h : IsName name) (path : String) :
    names (join path name) = names path ++ [name] := by
  unfold join
  by_cases hempty : path = ""
  · rw [if_pos hempty, hempty, names_empty, h.names_eq]
    rfl
  · rw [if_neg hempty]
    cases hslash : endsInSlash path with
    | true =>
      obtain ⟨rest, rfl⟩ := exists_of_endsInSlash hslash
      have hrest : names (rest ++ "/") = names rest := by
        have h := names_slash rest ""
        rwa [names_empty, List.append_nil, String.append_empty] at h
      rw [if_pos rfl, names_slash, hrest, h.names_eq]
    | false => rw [if_neg Bool.false_ne_true, names_slash, h.names_eq]

theorem toList_join (path name : String) :
    ∃ gap, (join path name).toList = path.toList ++ (gap ++ name.toList) ∧
      (path.toList = [] → gap = []) := by
  unfold join
  by_cases hempty : path = ""
  · exact ⟨[], by simp [hempty], fun _ => rfl⟩
  · have hne : path.toList ≠ [] := fun h => hempty (String.toList_inj.1 h)
    rw [if_neg hempty]
    split
    · exact ⟨[], by simp, fun _ => rfl⟩
    · exact ⟨['/'], by simp, fun h => absurd h hne⟩

theorem IsName.start_join (h : IsName name) (path : String) :
    start (join path name) = start path := by
  obtain ⟨gap, hjoin, hgap⟩ := toList_join path name
  have hhead : (join path name).toList.head? = some '/' ↔ path.toList.head? = some '/' := by
    rw [hjoin]
    cases hpath : path.toList with
    | nil =>
      rw [hgap hpath]
      have hslash : name.toList.head? ≠ some '/' := fun hhead => h.slash (List.mem_of_head? hhead)
      simpa using hslash
    | cons c cs => simp
  unfold start isAbsolute
  simp only [hhead]

theorem IsName.endsInSlash_join (h : IsName name) (path : String) :
    endsInSlash (join path name) = false := by
  obtain ⟨gap, hjoin, -⟩ := toList_join path name
  have hne : name.toList ≠ [] := fun hnil => h.nonempty (String.toList_inj.1 hnil)
  have hlast : (join path name).toList.getLast? = name.toList.getLast? := by
    rw [hjoin, ← List.append_assoc, List.getLast?_append_of_ne_nil _ hne]
  unfold endsInSlash
  rw [hlast]
  exact decide_eq_false fun hslash => h.slash (List.mem_of_getLast? hslash)

theorem walk_append (d : Disk) (p : Place) (names more : List String) :
    d.walk p (names ++ more) = (d.walk p names).bind fun q => d.walk q more := by
  induction names generalizing p with
  | nil => rfl
  | cons name rest ih =>
    rw [List.cons_append, walk, walk]
    split
    · exact ih _
    · rfl

/-- **The place of what is called by a name in a directory** is the place of the directory with
that name. -/
theorem IsName.locate?_join (h : IsName name) (hp : d.locate? (join path name) = some p) :
    ∃ base, d.walk (start path) (names path) = some base ∧ p = ⟨base.names ++ [name]⟩ := by
  unfold locate? steps at hp
  rw [h.endsInSlash_join, h.names_join, h.start_join] at hp
  split at hp
  · rw [if_neg Bool.false_ne_true, List.append_nil, walk_append] at hp
    obtain ⟨base, hbase, hstep⟩ := Option.bind_eq_some_iff.1 hp
    rw [walk] at hstep
    split at hstep
    · refine ⟨base, hbase, ?_⟩
      rw [← Option.some.inj hstep, Place.step, if_neg h.dot, if_neg h.dots]
    · cases hstep
  · cases hp

theorem IsName.endsInName_join (h : IsName name) (path : String) :
    endsInName (join path name) = true := by
  unfold endsInName steps
  rw [h.endsInSlash_join, h.names_join, if_neg Bool.false_ne_true, List.append_nil,
    List.getLast?_concat]
  simp [h.dot, h.dots]

/-! ### Files come and go -/

/-- **Two disks with the same directories**, so that every path leads to the same place. -/
def SameDirectories (d d' : Disk) : Prop := ∀ p, d'.isDirectory p = d.isDirectory p

theorem SameDirectories.walk_eq (h : SameDirectories d d') (p : Place) (names : List String) :
    d'.walk p names = d.walk p names := by
  induction names generalizing p with
  | nil => rfl
  | cons name rest ih =>
    rw [walk, walk, canStep, canStep, h p, ih]

theorem SameDirectories.locate?_eq (h : SameDirectories d d') (path : String) :
    d'.locate? path = d.locate? path := by
  unfold locate?
  rw [h.walk_eq]

/-- A place that is no directory is neither the root nor above the working directory. -/
theorem at?_eq_get? (h : d.isDirectory p = false) (d' : Disk) : d'.at? p = d'.entries.get? p := by
  unfold at?
  refine if_neg fun habove => ?_
  unfold isDirectory at? at h
  rw [if_pos habove] at h
  exact absurd h (by decide)

/-- **A file that is put where no directory is** is found there, and nothing else has changed. -/
theorem at?_put (h : d.isDirectory p = false) (entry : DiskEntry) (q : Place) :
    (d.put p entry).at? q = if q = p then some entry else d.at? q := by
  by_cases hq : q = p
  · rw [if_pos hq, hq, at?_eq_get? h, put, OrderedMap.get?_insert_eq, if_pos rfl]
  · unfold at? put
    rw [OrderedMap.get?_insert_eq, if_neg hq, if_neg hq]

/-- **A file that is taken away** is not found any more, and nothing else has changed. -/
theorem at?_erase (h : d.isDirectory p = false) (q : Place) :
    (⟨d.entries.erase p⟩ : Disk).at? q = if q = p then none else d.at? q := by
  by_cases hq : q = p
  · rw [if_pos hq, hq, at?_eq_get? h, OrderedMap.get?_erase_eq, if_pos rfl]
  · unfold at?
    rw [OrderedMap.get?_erase_eq, if_neg hq, if_neg hq]

theorem sameDirectories_put (h : d.isDirectory p = false) (text : String) :
    SameDirectories d (d.put p (.file text)) := by
  intro q
  have hat := at?_put h (.file text) q
  unfold isDirectory
  rw [hat]
  split
  · rename_i hq
    exact (hq ▸ h).symm
  · rfl

theorem sameDirectories_erase (h : d.isDirectory p = false) :
    SameDirectories d ⟨d.entries.erase p⟩ := by
  intro q
  have hat := at?_erase h q
  unfold isDirectory
  rw [hat]
  split
  · rename_i hq
    exact (hq ▸ h).symm
  · rfl

/-! ### Changes -/

theorem written?_eq_some {text : String} (h : d.written? path text = some d') :
    ∃ p, d.locate? path = some p ∧ d.isDirectory p = false ∧ d' = d.put p (.file text) := by
  obtain ⟨p, hp, hput⟩ := Option.bind_eq_some_iff.1 h
  split at hput
  · cases hput
  · rename_i hfree
    obtain ⟨hdirectory, -⟩ := Bool.or_eq_false_iff.1 (Bool.eq_false_iff.2 hfree)
    exact ⟨p, hp, hdirectory, (Option.some.inj hput).symm⟩

theorem written?_of {text : String} (hp : d.locate? path = some p)
    (hdirectory : d.isDirectory p = false) (hname : endsInName path = true) :
    d.written? path text = some (d.put p (.file text)) := by
  refine Option.bind_eq_some_iff.2 ⟨p, hp, ?_⟩
  rw [hdirectory, hname]
  rfl

theorem renamed?_eq_some {source target : String} (h : d.renamed? source target = some d') :
    ∃ p q text, d.locate? source = some p ∧ d.locate? target = some q ∧
      d.read? source = some text ∧ d.isDirectory q = false ∧
      d' = (⟨d.entries.erase p⟩ : Disk).put q (.file text) := by
  obtain ⟨p, hp, h⟩ := Option.bind_eq_some_iff.1 h
  obtain ⟨q, hq, h⟩ := Option.bind_eq_some_iff.1 h
  obtain ⟨text, htext, hput⟩ := Option.bind_eq_some_iff.1 h
  split at hput
  · cases hput
  · rename_i hfree
    obtain ⟨hdirectory, -⟩ := Bool.or_eq_false_iff.1 (Bool.eq_false_iff.2 hfree)
    exact ⟨p, q, text, hp, hq, htext, hdirectory, (Option.some.inj hput).symm⟩

theorem renamed?_of {source target text : String} (hp : d.locate? source = some p)
    (hq : d.locate? target = some q) (htext : d.read? source = some text)
    (hdirectory : d.isDirectory q = false) (hname : endsInName target = true) :
    d.renamed? source target = some ((⟨d.entries.erase p⟩ : Disk).put q (.file text)) := by
  refine Option.bind_eq_some_iff.2 ⟨p, hp, Option.bind_eq_some_iff.2 ⟨q, hq, ?_⟩⟩
  refine Option.bind_eq_some_iff.2 ⟨text, htext, ?_⟩
  rw [hdirectory, hname]
  rfl

theorem changed_eq_ok {next : Option Disk} : changed path next d = .ok () d' ↔ next = some d' := by
  cases next with
  | none =>
    constructor
    · intro h
      cases h
    · intro h
      cases h
  | some d₁ =>
    constructor
    · intro h
      cases h
      rfl
    · intro h
      cases h
      rfl

theorem changed_eq_error {next : Option Disk} {e : DiskError}
    (h : changed path next d = .error e d') : d' = d := by
  cases next with
  | none =>
    cases h
    rfl
  | some d₁ => cases h

/-! ### Directories -/

/-- **All that is found on one disk is found on another one.** -/
def Extends (d d' : Disk) : Prop := ∀ p entry, d.at? p = some entry → d'.at? p = some entry

theorem Extends.refl (d : Disk) : Extends d d := fun _ _ h => h

theorem Extends.trans {d₁ : Disk} (h : Extends d d₁) (h' : Extends d₁ d') : Extends d d' :=
  fun p entry hp => h' p entry (h p entry hp)

theorem Extends.isDirectory (h : Extends d d') (hp : d.isDirectory p = true) :
    d'.isDirectory p = true := decide_eq_true (h p .directory (of_decide_eq_true hp))

theorem Extends.walk (h : Extends d d') {names : List String} (hwalk : d.walk p names = some q) :
    d'.walk p names = some q := by
  induction names generalizing p with
  | nil => exact hwalk
  | cons name rest ih =>
    rw [Disk.walk] at hwalk ⊢
    split at hwalk
    · rename_i hstep
      obtain ⟨hdirectory, hlimit⟩ := Bool.and_eq_true_iff.1 hstep
      have hstep' : d'.canStep p name = true :=
        Bool.and_eq_true_iff.2 ⟨h.isDirectory hdirectory, hlimit⟩
      rw [if_pos hstep']
      exact ih hwalk
    · cases hwalk

/-- **What is found under a path** on one disk is found under it on the other one. -/
theorem Extends.find? (h : Extends d d') {entry : DiskEntry}
    (hfind : d.find? path = some entry) : d'.find? path = some entry := by
  obtain ⟨p, hp, hentry⟩ := Option.bind_eq_some_iff.1 hfind
  refine Option.bind_eq_some_iff.2 ⟨p, ?_, h p entry hentry⟩
  unfold locate? at hp ⊢
  split at hp
  · rename_i hpath
    rw [if_pos hpath]
    exact h.walk hp
  · cases hp

/-- What is put where nothing was takes nothing away. -/
theorem extends_put (h : d.at? p = none) (entry : DiskEntry) : Extends d (d.put p entry) := by
  intro q found hq
  have hfree : d.isDirectory p = false := by
    unfold isDirectory
    rw [h]
    rfl
  have hne : q ≠ p := by
    rintro rfl
    cases h.symm.trans hq
  rw [at?_put hfree, if_neg hne]
  exact hq

/-- **Making directories takes nothing away**, whether all of them can be made or not. -/
theorem extends_dig (names : List String) : Extends d (d.dig p names).1 := by
  induction names generalizing d p with
  | nil => exact .refl d
  | cons name rest ih =>
    rw [dig]
    split
    · simp only
      split
      · rename_i hfree
        exact (extends_put hfree .directory).trans ih
      · exact ih
    · exact .refl d

/-- **Directories that were made are there.** -/
theorem isDirectory_of_dig {names : List String} (h : d.dig p names = (d', true)) :
    d'.isDirectory p = true := by
  cases names with
  | nil =>
    obtain ⟨rfl, hdirectory⟩ := Prod.mk.inj h
    exact hdirectory
  | cons name rest =>
    have hextends : Extends d d' := by
      have hdig : Extends d (d.dig p (name :: rest)).1 := extends_dig _
      rwa [h] at hdig
    rw [dig] at h
    split at h
    · rename_i hstep
      exact hextends.isDirectory (Bool.and_eq_true_iff.1 hstep).1
    · cases h

/-- **Directories that are there** are not made again. -/
theorem dig_again {names : List String} {d₁ : Disk} (h : d.dig p names = (d₁, true))
    (hsame : d₁.SameDirectories d') : d'.dig p names = (d', true) := by
  induction names generalizing d p with
  | nil =>
    obtain ⟨rfl, hdirectory⟩ := Prod.mk.inj h
    exact Prod.ext rfl ((hsame p).trans hdirectory)
  | cons name rest ih =>
    have hdirectory := isDirectory_of_dig h
    rw [dig] at h
    split at h
    · rename_i hstep
      have hlimit := (Bool.and_eq_true_iff.1 hstep).2
      obtain ⟨first, hfirst⟩ : ∃ first : Disk, first.dig (p.step name) rest = (d₁, true) := by
        simp only at h
        split at h
        · exact ⟨_, h⟩
        · exact ⟨_, h⟩
      have hnext : d'.at? (p.step name) = some .directory :=
        of_decide_eq_true ((hsame _).trans (isDirectory_of_dig hfirst))
      have hstep' : d'.canStep p name = true :=
        Bool.and_eq_true_iff.2 ⟨(hsame p).trans hdirectory, hlimit⟩
      rw [dig, if_pos hstep']
      simp only [hnext]
      exact ih hfirst
    · cases h

theorem dug_again {d₁ : Disk} (h : d.dug path = (d₁, true)) (hsame : d₁.SameDirectories d') :
    d'.dug path = (d', true) := by
  unfold dug at h ⊢
  split at h
  · rename_i hlast
    rw [if_pos hlast]
    cases hdig : d.dig (start path) (parts path).dropLast with
    | mk made done =>
      rw [hdig] at h
      obtain ⟨rfl, hdone⟩ := Prod.mk.inj h
      obtain ⟨rfl, hthere⟩ := Bool.and_eq_true_iff.1 hdone
      have hthere' : (d'.locate? path).any d'.isDirectory = true := by
        rw [hsame.locate?_eq]
        cases hplace : made.locate? path with
        | none =>
          rw [hplace] at hthere
          cases hthere
        | some p =>
          rw [hplace] at hthere
          exact (hsame p).trans hthere
      rw [dig_again hdig hsame]
      exact Prod.ext rfl hthere'
  · rename_i hlast
    rw [if_neg hlast]
    exact dig_again h hsame

theorem extends_dug (path : String) : Extends d (d.dug path).1 := by
  unfold dug
  split
  · exact extends_dig _
  · exact extends_dig _

/-- Nothing is lost when directories are made, even if not all of them can be. -/
theorem keeps_makeDirectories (path : String) : Call.Keeps (Extends d) (makeDirectories path) := by
  intro d₁ h
  unfold makeDirectories
  by_cases hempty : path = ""
  · rw [if_neg (not_not.2 hempty)]
    exact h
  · rw [if_pos hempty]
    refine Call.Keeps.refuse (Call.Keeps.get_bind fun d₂ h₂ => ?_) d₁ h
    have hextends : Extends d (d₂.dug path).1 := h₂.trans (extends_dug path)
    cases hdug : d₂.dug path with
    | mk made done =>
      rw [hdug] at hextends
      refine (Call.Keeps.set hextends).bind (fun _ => ?_) d₂ h₂
      split
      · exact .throw _
      · exact .pure _

theorem makeDirectories_eq_ok {d₁ : Disk} (h : makeDirectories path d = .ok () d₁) :
    path = "" ∧ d = d₁ ∨ path ≠ "" ∧ isPath path = true ∧ d.dug path = (d₁, true) := by
  unfold makeDirectories at h
  by_cases hempty : path = ""
  · rw [if_neg (not_not.2 hempty)] at h
    obtain ⟨-, rfl⟩ := Call.pure_eq_ok.1 h
    exact .inl ⟨hempty, rfl⟩
  · rw [if_pos hempty] at h
    obtain ⟨hpath, h⟩ := Call.refuse_eq_ok.1 h
    have h := Call.get_bind_eq_ok.1 h
    refine .inr ⟨hempty, by simpa using hpath, ?_⟩
    cases hdug : d.dug path with
    | mk made done =>
      rw [hdug] at h
      obtain ⟨_, _, hset, hrest⟩ := Call.bind_eq_ok.1 h
      obtain rfl := Call.set_eq_ok.1 hset
      cases done with
      | true =>
        obtain ⟨-, rfl⟩ := Call.pure_eq_ok.1 hrest
        rfl
      | false => exact absurd hrest Call.throw_ne_ok

theorem makeDirectories_eq_error {e : DiskError} (h : makeDirectories path d = .error e d') :
    e = .refused path := by
  unfold makeDirectories at h
  by_cases hempty : path = ""
  · rw [if_neg (not_not.2 hempty)] at h
    exact absurd h Call.pure_ne_error
  · rw [if_pos hempty] at h
    rcases Call.refuse_eq_error.1 h with ⟨-, rfl, -⟩ | ⟨-, h⟩
    · rfl
    have h := Call.get_bind_eq_error.1 h
    cases hdug : d.dug path with
    | mk made done =>
      rw [hdug] at h
      rcases Call.bind_eq_error.1 h with hset | ⟨_, _, -, hrest⟩
      · exact absurd hset Call.set_ne_error
      cases done with
      | true => exact absurd hrest Call.pure_ne_error
      | false => exact (Call.throw_eq_error.1 hrest).1.symm

/-- **The directories of a path** that are there are not made again. -/
theorem makeDirectories_again {d₁ : Disk} (h : makeDirectories path d = .ok () d₁)
    (hsame : d₁.SameDirectories d') : makeDirectories path d' = .ok () d' := by
  rcases makeDirectories_eq_ok h with ⟨rfl, rfl⟩ | ⟨hempty, hpath, hdug⟩
  · rfl
  · have hagain := dug_again hdug hsame
    unfold makeDirectories
    rw [if_pos hempty]
    refine Call.refuse_eq_ok.2 ⟨by simp [hpath], Call.get_bind_eq_ok.2 ?_⟩
    rw [hagain]
    exact Call.bind_eq_ok.2 ⟨.unit, d', Call.set_eq_ok.2 rfl, rfl⟩

end Disk

namespace Database

variable {d d' : Disk} {path : String} {c : Contents}

theorem isName_fileName : Disk.IsName fileName := ⟨by decide, by decide, by decide, by decide⟩

theorem isName_draft : Disk.IsName (fileName ++ ".tmp") :=
  ⟨by decide, by decide, by decide, by decide⟩

/-- **A disk on which a database can be written**: the places of its file and of the draft can be
found, and neither is a directory. -/
structure Writable (d : Disk) (path : String) : Prop where
  draft : ∃ p, d.locate? (draftPath path) = some p ∧ d.isDirectory p = false
  file : ∃ q, d.locate? (filePath path) = some q ∧ d.isDirectory q = false

/-- The draft and the file are in different places. -/
theorem place_ne {p q : Place} (hp : d.locate? (draftPath path) = some p)
    (hq : d.locate? (filePath path) = some q) : q ≠ p := by
  obtain ⟨base, hbase, rfl⟩ := isName_draft.locate?_join hp
  obtain ⟨base', hbase', rfl⟩ := isName_fileName.locate?_join hq
  cases hbase.symm.trans hbase'
  intro hsame
  have hnames : [fileName] = [fileName ++ ".tmp"] :=
    List.append_cancel_left (congrArg Place.names hsame)
  exact absurd hnames (by decide)

/-- **Writing the draft** leaves the file and the directories as they are. -/
theorem written_draft {text : String} (h : d.written? (draftPath path) text = some d') :
    d.SameDirectories d' ∧ d'.find? (filePath path) = d.find? (filePath path) ∧
      d'.read? (draftPath path) = some text := by
  obtain ⟨p, hp, hdirectory, rfl⟩ := Disk.written?_eq_some h
  have hsame := Disk.sameDirectories_put hdirectory text
  have hat := Disk.at?_put hdirectory (.file text)
  refine ⟨hsame, ?_, ?_⟩
  · unfold Disk.find?
    rw [hsame.locate?_eq]
    cases hq : d.locate? (filePath path) with
    | none => rfl
    | some q => exact (hat q).trans (if_neg (place_ne hp hq))
  · unfold Disk.read? Disk.find?
    rw [hsame.locate?_eq, hp, Option.bind_some, hat p, if_pos rfl]

/-- **Moving the draft** makes it the file, and leaves the directories as they are. -/
theorem renamed_draft {text : String} (hread : d.read? (draftPath path) = some text)
    (h : d.renamed? (draftPath path) (filePath path) = some d') :
    d.SameDirectories d' ∧ d'.find? (filePath path) = some (.file text) := by
  obtain ⟨p, q, text', hp, hq, htext, hdirectory, rfl⟩ := Disk.renamed?_eq_some h
  cases hread.symm.trans htext
  -- what was read is a file
  have hfile : d.isDirectory p = false := by
    unfold Disk.read? Disk.find? at htext
    rw [hp, Option.bind_some] at htext
    unfold Disk.isDirectory
    split at htext
    · rename_i hat
      rw [hat]
      rfl
    · cases htext
  have herase := Disk.sameDirectories_erase hfile
  have hdirectory' : (⟨d.entries.erase p⟩ : Disk).isDirectory q = false :=
    (herase q).trans hdirectory
  have hput := Disk.sameDirectories_put hdirectory' text
  have hsame : d.SameDirectories ((⟨d.entries.erase p⟩ : Disk).put q (.file text)) := fun r =>
    (hput r).trans (herase r)
  refine ⟨hsame, ?_⟩
  unfold Disk.find?
  rw [hsame.locate?_eq, hq, Option.bind_some, Disk.at?_put hdirectory', if_pos rfl]

/-- **A database that was written** is found in its file. -/
theorem persist_eq_ok (h : persist path c d = .ok () d') :
    d.SameDirectories d' ∧ d'.find? (filePath path) = some (.file c.toText) := by
  obtain ⟨_, d₁, hwrite, hrename⟩ := Call.bind_eq_ok.1 h
  obtain ⟨_, hwrite, rfl⟩ := Call.part_eq_ok.1 hwrite
  obtain ⟨_, hrename, rfl⟩ := Call.part_eq_ok.1 hrename
  have hwritten := Disk.changed_eq_ok.1 (Call.get_bind_eq_ok.1 hwrite)
  have hrenamed := Disk.changed_eq_ok.1 (Call.get_bind_eq_ok.1 hrename)
  obtain ⟨hsame, -, hread⟩ := written_draft hwritten
  obtain ⟨hsame', hfind⟩ := renamed_draft hread hrenamed
  exact ⟨fun r => (hsame' r).trans (hsame r), hfind⟩

/-- **A database that could not be written** is what it was before. -/
theorem persist_eq_error {e : StorageError} (h : persist path c d = .error e d') :
    d.SameDirectories d' ∧ d'.find? (filePath path) = d.find? (filePath path) := by
  rcases Call.bind_eq_error.1 h with hwrite | ⟨_, d₁, hwrite, hrename⟩
  · obtain ⟨_, _, hwrite, -, rfl⟩ := Call.part_eq_error.1 hwrite
    cases Disk.changed_eq_error (Call.get_bind_eq_error.1 hwrite)
    exact ⟨fun _ => rfl, rfl⟩
  · obtain ⟨_, hwrite, rfl⟩ := Call.part_eq_ok.1 hwrite
    obtain ⟨_, _, hrename, -, rfl⟩ := Call.part_eq_error.1 hrename
    cases Disk.changed_eq_error (Call.get_bind_eq_error.1 hrename)
    obtain ⟨hsame, hfind, -⟩ := written_draft (Disk.changed_eq_ok.1 (Call.get_bind_eq_ok.1 hwrite))
    exact ⟨hsame, hfind⟩

theorem Writable.congr (h : Writable d path) (hsame : d.SameDirectories d') : Writable d' path where
  draft := by
    obtain ⟨p, hp, hdirectory⟩ := h.draft
    exact ⟨p, (hsame.locate?_eq _).trans hp, (hsame p).trans hdirectory⟩
  file := by
    obtain ⟨q, hq, hdirectory⟩ := h.file
    exact ⟨q, (hsame.locate?_eq _).trans hq, (hsame q).trans hdirectory⟩

/-- **Where a database can be written**, it is. -/
theorem Writable.persist (h : Writable d path) (c : Contents) :
    ∃ d', Database.persist path c d = .ok () d' := by
  obtain ⟨p, hp, hdirectory⟩ := h.draft
  have hwritten : d.written? (draftPath path) c.toText = some (d.put p (.file c.toText)) :=
    Disk.written?_of hp hdirectory (isName_draft.endsInName_join path)
  obtain ⟨hsame, -, hread⟩ := written_draft hwritten
  obtain ⟨q, hq, hdirectory'⟩ := (h.congr hsame).file
  have hrenamed := Disk.renamed?_of ((hsame.locate?_eq _).trans hp) hq hread hdirectory'
    (isName_fileName.endsInName_join path)
  have hwrite : onDisk (Disk.write (draftPath path) c.toText) d
      = .ok () (d.put p (.file c.toText)) :=
    Call.part_eq_ok.2 ⟨_, Disk.changed_eq_ok.2 hwritten, rfl⟩
  have hrename : onDisk (Disk.rename (draftPath path) (filePath path)) (d.put p (.file c.toText))
      = .ok () _ := Call.part_eq_ok.2 ⟨_, Disk.changed_eq_ok.2 hrenamed, rfl⟩
  exact ⟨_, Call.bind_eq_ok.2 ⟨(), _, hwrite, hrename⟩⟩

/-- Only the disk keeps a database from being written. -/
theorem error_of_persist {e : StorageError} (h : persist path c d = .error e d') :
    ∃ place, e = .disk place := by
  have hdisk : ∀ {call : Call DiskError Disk Unit} {d d' : Disk},
      onDisk call d = .error e d' → ∃ place, e = .disk place := fun h => by
    obtain ⟨⟨place⟩, _, -, rfl, -⟩ := Call.part_eq_error.1 h
    exact ⟨place, rfl⟩
  rcases Call.bind_eq_error.1 h with hwrite | ⟨_, _, -, hrename⟩
  · exact hdisk hwrite
  · exact hdisk hrename

/-! ### Changing -/

section Changes

variable {db db' : Database} {batch : List Change}

/-- **A batch of changes is made** if it can be made to the contents, and what they become can be
written. -/
theorem writeBatch_eq_ok : db.writeBatch batch d = .ok db' d' ↔ ∃ c,
    db.contents.apply batch = .ok c ∧ persist db.path c d = .ok () d' ∧ db' = ⟨db.path, c⟩ := by
  refine Call.lift_bind_eq_ok.trans (exists_congr fun c => and_congr_right fun _ => ?_)
  refine Call.bind_pure_eq_ok.trans ⟨?_, ?_⟩
  · rintro ⟨_, hpersist, rfl⟩
    exact ⟨hpersist, rfl⟩
  · rintro ⟨hpersist, rfl⟩
    exact ⟨(), hpersist, rfl⟩

theorem writeBatch_eq_error {e : StorageError} : db.writeBatch batch d = .error e d' ↔
    db.contents.apply batch = .error e ∧ d = d' ∨ ∃ c, db.contents.apply batch = .ok c ∧
      persist db.path c d = .error e d' :=
  Call.lift_bind_eq_error.trans (or_congr Iff.rfl
    (exists_congr fun _ => and_congr_right fun _ => Call.bind_pure_eq_error))

/-- **A database is emptied** if no contents can be written in place of its own. -/
theorem clear_eq_ok : db.clear d = .ok db' d' ↔
    persist db.path .empty d = .ok () d' ∧ db' = ⟨db.path, .empty⟩ := by
  refine Call.bind_pure_eq_ok.trans ⟨?_, ?_⟩
  · rintro ⟨_, hpersist, rfl⟩
    exact ⟨hpersist, rfl⟩
  · rintro ⟨hpersist, rfl⟩
    exact ⟨(), hpersist, rfl⟩

theorem clear_eq_error {e : StorageError} :
    db.clear d = .error e d' ↔ persist db.path .empty d = .error e d' := Call.bind_pure_eq_error

end Changes

/-! ### Opening -/

/-- What is found depends on the file only. -/
theorem load_congr (h : d'.find? (filePath path) = d.find? (filePath path)) :
    load d' path = load d path := by
  unfold load
  rw [h]

/-- **The file of a database** of texts is read as that database. -/
theorem load_of_file (h : d.find? (filePath path) = some (.file c.toText)) (hc : c.Textual) :
    load d path = .ok c := by
  unfold load
  rw [h]
  exact hc.ofText_toText

theorem load_of_none (h : d.find? (filePath path) = none) : load d path = .ok .empty := by
  unfold load
  rw [h]

/-- **A database is opened** if its directories can be made and the file there can be read. -/
theorem openAt_eq_ok {db : Database} : openAt path d = .ok db d' ↔
    Disk.makeDirectories path d = .ok () d' ∧ ∃ c, load d' path = .ok c ∧ db = ⟨path, c⟩ := by
  constructor
  · intro h
    obtain ⟨_, d₁, hdirectories, h⟩ := Call.bind_eq_ok.1 h
    obtain ⟨_, hmake, rfl⟩ := Call.part_eq_ok.1 hdirectories
    obtain ⟨c, hload, hpure⟩ := Call.lift_bind_eq_ok.1 (Call.get_bind_eq_ok.1 h)
    obtain ⟨rfl, rfl⟩ := Call.pure_eq_ok.1 hpure
    exact ⟨hmake, c, hload, rfl⟩
  · rintro ⟨hmake, c, hload, rfl⟩
    have hdirectories : onDisk (Disk.makeDirectories path) d = .ok () d' :=
      Call.part_eq_ok.2 ⟨d', hmake, rfl⟩
    exact Call.bind_eq_ok.2 ⟨(), d', hdirectories,
      Call.get_bind_eq_ok.2 (Call.lift_bind_eq_ok.2 ⟨c, hload, rfl⟩)⟩

theorem openAt_of (hmake : Disk.makeDirectories path d = .ok () d') (hload : load d' path = .ok c) :
    openAt path d = .ok ⟨path, c⟩ d' := openAt_eq_ok.2 ⟨hmake, c, hload, rfl⟩

end Database

end StakeGovernance
