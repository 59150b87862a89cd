import Mathlib.Data.List.Basic
import Mathlib.Data.List.Forall2
import Mathlib.Tactic.SplitIfs
import StakeGovernance.CommandLine.Action
import StakeGovernance.Proofs.Accounts

/-!
# Texts in parts

What is given on the command line comes in parts: a name, a mark, and more parts with a mark
between any two of them, and there may be blanks around each. The reader takes the blanks off twice,
from the text as a whole before it is cut, and from every part afterwards. The first of these
changes nothing, because no mark is a blank: what it takes off at either end is around the first
part or around the last one, where the second would have found it. So a text that is put together
from parts is taken apart into these parts, whatever blanks have been put around them, as long as no
part is empty or has a blank or a mark of its own.

* `StakeGovernance.Padded` – a text with **blanks around it**, and
  `StakeGovernance.Padded.trimBlanks_eq`;
* `StakeGovernance.map_trimBlanks_splitText` – to **trim before cutting** changes nothing;
* `StakeGovernance.Settings.partsOfArgument_of_padded` – the **name and the arguments** of an action
  are found again.
-/

namespace StakeGovernance

/-! ### Blanks -/

section Blanks

variable {c : Char} {cs after : List Char} {text core : String}

/-- A character is kept unless it is a blank and only blanks follow. -/
theorem dropBlankEnd_cons (c : Char) (cs : List Char) : dropBlankEnd (c :: cs)
    = if isBlank c = true ∧ dropBlankEnd cs = [] then [] else c :: dropBlankEnd cs := by
  rw [dropBlankEnd]
  rcases dropBlankEnd cs with _ | ⟨d, rest⟩ <;> simp

/-- **Nothing is left** of blanks, and of nothing else. -/
theorem dropBlankEnd_eq_nil_iff : dropBlankEnd cs = [] ↔ ∀ c ∈ cs, isBlank c = true := by
  induction cs with
  | nil => simp [dropBlankEnd]
  | cons c rest ih =>
    rw [dropBlankEnd_cons, List.forall_mem_cons, ← ih]
    by_cases h : isBlank c = true ∧ dropBlankEnd rest = []
    · exact iff_of_true (if_pos h) h
    · rw [if_neg h]
      exact iff_of_false (List.cons_ne_nil _ _) h

/-- Blanks at the end are no matter. -/
theorem dropBlankEnd_append (h : ∀ c ∈ after, isBlank c = true) :
    dropBlankEnd (cs ++ after) = dropBlankEnd cs := by
  induction cs with
  | nil => exact dropBlankEnd_eq_nil_iff.2 h
  | cons c rest ih => rw [List.cons_append, dropBlankEnd_cons, dropBlankEnd_cons, ih]

/-- It is no matter which end is looked at first. -/
theorem dropBlankEnd_dropWhile (cs : List Char) :
    dropBlankEnd (cs.dropWhile isBlank) = (dropBlankEnd cs).dropWhile isBlank := by
  induction cs with
  | nil => rfl
  | cons c rest ih =>
    by_cases hc : isBlank c = true
    · rw [List.dropWhile_cons_of_pos hc, ih, dropBlankEnd_cons]
      split_ifs with h
      · rw [h.2]
      · rw [List.dropWhile_cons_of_pos hc]
    · have hkeep : dropBlankEnd (c :: rest) = c :: dropBlankEnd rest := by
        rw [dropBlankEnd_cons, if_neg (fun h => hc h.1)]
      rw [List.dropWhile_cons_of_neg hc, hkeep, List.dropWhile_cons_of_neg hc]

/-- **A text with blanks around it.** -/
def Padded (core text : String) : Prop :=
  ∃ before after : List Char, before.all isBlank = true ∧ after.all isBlank = true ∧
    text.toList = before ++ core.toList ++ after

/-- A text has no blanks around it by itself. -/
theorem Padded.refl (text : String) : Padded text text := ⟨[], [], by simp⟩

/-- **The blanks are taken off.** -/
theorem Padded.trimBlanks_eq (h : Padded core text) (hcore : ∀ c ∈ core.toList, isBlank c = false) :
    trimBlanks text = core := by
  obtain ⟨before, after, hbefore, hafter, htext⟩ := h
  have hself := congrArg String.toList (trimBlanks_eq_self hcore)
  rw [trimBlanks, String.toList_ofList] at hself
  rw [trimBlanks, htext, List.append_assoc,
    List.dropWhile_append_of_pos (List.all_eq_true.1 hbefore), dropBlankEnd_dropWhile,
    dropBlankEnd_append (List.all_eq_true.1 hafter), ← dropBlankEnd_dropWhile, hself,
    String.ofList_toList]

/-- Blanks are no marks. -/
theorem Padded.notMem {mark : Char} (h : Padded core text) (hmark : isBlank mark = false)
    (hcore : mark ∉ core.toList) : mark ∉ text.toList := by
  obtain ⟨before, after, hbefore, hafter, htext⟩ := h
  rw [htext, List.mem_append, List.mem_append]
  rintro ((hmem | hmem) | hmem)
  · exact Bool.false_ne_true (hmark.symm.trans (List.all_eq_true.1 hbefore mark hmem))
  · exact hcore hmem
  · exact Bool.false_ne_true (hmark.symm.trans (List.all_eq_true.1 hafter mark hmem))

end Blanks

/-! ### Cutting -/

section Cutting

variable {mark : Char}

theorem cutAll_eq_splitOn (mark : Char) (cs : List Char) : cutAll mark cs = cs.splitOn mark := by
  induction cs with
  | nil => rfl
  | cons c rest ih =>
    obtain ⟨part, parts, hparts⟩ := List.exists_cons_of_ne_nil (List.splitOn_ne_nil mark rest)
    rw [cutAll, ih, List.splitOn_cons_eq_if_modifyHead, hparts]
    simp

/-- **Parts with a mark between any two of them** are found again. -/
theorem splitText_intercalate {texts : List String} (hne : texts ≠ [])
    (h : ∀ text ∈ texts, mark ∉ text.toList) :
    splitText mark ((String.singleton mark).intercalate texts) = texts := by
  have hparts : ∀ part ∈ texts.map String.toList, mark ∉ part := by
    simpa using h
  rw [splitText, cutAll_eq_splitOn, String.toList_intercalate, String.toList_singleton,
    List.splitOn_intercalate mark hparts (by simpa using hne), List.map_map]
  exact List.map_id'' (fun text => String.ofList_toList) texts

/-- **What is before a mark** is found again, and what is behind it. -/
theorem splitOnce?_append {before : String} (after : String) (h : mark ∉ before.toList) :
    splitOnce? mark (before ++ String.singleton mark ++ after) = some (before, after) := by
  have hcut : ∀ cs : List Char, mark ∉ cs →
      cutOnce? mark (cs ++ mark :: after.toList) = some (cs, after.toList) := by
    intro cs hcs
    induction cs with
    | nil => exact if_pos rfl
    | cons c rest ih =>
      obtain ⟨hc, hrest⟩ := List.ne_and_not_mem_of_not_mem_cons hcs
      rw [List.cons_append, cutOnce?, if_neg (Ne.symm hc), ih hrest]
      rfl
  rw [splitOnce?]
  simp only [String.toList_append, String.toList_singleton, List.append_assoc,
    List.singleton_append, hcut _ h, Option.map_some, String.ofList_toList]

/-- Blanks at the end are at the end of the last part. -/
theorem map_dropBlankEnd_splitOn (hmark : isBlank mark = false) (cs : List Char) :
    ((dropBlankEnd cs).splitOn mark).map dropBlankEnd = (cs.splitOn mark).map dropBlankEnd := by
  induction cs with
  | nil => rfl
  | cons c rest ih =>
    obtain ⟨part, parts, hparts⟩ := List.exists_cons_of_ne_nil (List.splitOn_ne_nil mark rest)
    obtain ⟨kept, others, hkept⟩ :=
      List.exists_cons_of_ne_nil (List.splitOn_ne_nil mark (dropBlankEnd rest))
    rw [List.splitOn_cons_eq_if_modifyHead]
    by_cases hcut : c = mark
    · -- a mark is no blank, so that it stays, and the parts behind it are as they were
      have hstays : dropBlankEnd (c :: rest) = c :: dropBlankEnd rest := by
        rw [dropBlankEnd_cons, if_neg (by simp [hcut, hmark])]
      rw [hstays, List.splitOn_cons_eq_if_modifyHead, if_pos (beq_iff_eq.2 hcut),
        if_pos (beq_iff_eq.2 hcut), List.map_cons, List.map_cons, ih]
    · rw [if_neg (by simpa using hcut), hparts, List.modifyHead_cons, List.map_cons,
        dropBlankEnd_cons c part, dropBlankEnd_cons c rest]
      rw [hparts, hkept] at ih
      obtain ⟨hpart, hothers⟩ := List.cons.inj ih
      by_cases hgone : isBlank c = true ∧ dropBlankEnd rest = []
      · -- nothing but blanks, all of them in the only part
        rw [hgone.2, List.splitOn_nil] at hkept
        obtain ⟨rfl, rfl⟩ := List.cons.inj hkept
        rw [if_pos hgone, if_pos ⟨hgone.1, hpart.symm⟩, ← hothers]
        rfl
      · rw [if_neg hgone, List.splitOn_cons_eq_if_modifyHead, if_neg (by simpa using hcut), hkept,
          List.modifyHead_cons, List.map_cons, dropBlankEnd_cons c kept, hpart, hothers]

/-- Blanks in front are in front of the first part. -/
theorem map_dropWhile_splitOn (hmark : isBlank mark = false) (cs : List Char) :
    ((cs.dropWhile isBlank).splitOn mark).map (List.dropWhile isBlank)
      = (cs.splitOn mark).map (List.dropWhile isBlank) := by
  induction cs with
  | nil => rfl
  | cons c rest ih =>
    by_cases hc : isBlank c = true
    · have hother : ¬ (c == mark) = true := by
        rw [beq_iff_eq]
        rintro rfl
        exact Bool.false_ne_true (hmark.symm.trans hc)
      obtain ⟨part, parts, hparts⟩ := List.exists_cons_of_ne_nil (List.splitOn_ne_nil mark rest)
      rw [List.dropWhile_cons_of_pos hc, ih, List.splitOn_cons_eq_if_modifyHead, if_neg hother,
        hparts, List.modifyHead_cons, List.map_cons, List.map_cons, List.dropWhile_cons_of_pos hc]
    · rw [List.dropWhile_cons_of_neg hc]

/-- **To trim before cutting changes nothing** if the parts are trimmed too. -/
theorem map_trimBlanks_splitText (hmark : isBlank mark = false) (text : String) :
    (splitText mark (trimBlanks text)).map trimBlanks = (splitText mark text).map trimBlanks := by
  have hparts : ∀ cs : List Char, ((cs.splitOn mark).map String.ofList).map trimBlanks
      = (((cs.splitOn mark).map (List.dropWhile isBlank)).map dropBlankEnd).map String.ofList := by
    intro cs
    simp [Function.comp_def, trimBlanks]
  have hends : ∀ parts : List (List Char),
      (parts.map (List.dropWhile isBlank)).map dropBlankEnd
        = (parts.map dropBlankEnd).map (List.dropWhile isBlank) := by
    intro parts
    simp [Function.comp_def, dropBlankEnd_dropWhile]
  rw [splitText, splitText, cutAll_eq_splitOn, cutAll_eq_splitOn, hparts, hparts, trimBlanks,
    String.toList_ofList, hends, map_dropBlankEnd_splitOn hmark, ← hends,
    map_dropWhile_splitOn hmark]

end Cutting

/-! ### Names and arguments -/

/-- Whether a character may be in a part: it is no blank and no mark. -/
def isPlain (c : Char) : Bool := !isBlank c && c ≠ '=' && c ≠ ','

theorem isPlain_iff {c : Char} : isPlain c = true ↔ isBlank c = false ∧ c ≠ '=' ∧ c ≠ ',' := by
  simp [isPlain, and_assoc]

/-- **A text that may be a part**: it is not empty, and has no blanks and no marks. -/
structure Plain (text : String) : Prop where
  nonempty : text ≠ ""
  letters : text.toList.all isPlain = true

namespace Plain

variable {core text : String}

theorem isPlain_of_mem (h : Plain core) {c : Char} (hc : c ∈ core.toList) :
    isBlank c = false ∧ c ≠ '=' ∧ c ≠ ',' := isPlain_iff.1 (List.all_eq_true.1 h.letters c hc)

theorem trimBlanks_eq (h : Plain core) (hpadded : Padded core text) : trimBlanks text = core :=
  hpadded.trimBlanks_eq fun _ hc => (h.isPlain_of_mem hc).1

end Plain

namespace Settings

variable {cores texts : List String} {name nameText : String}

/-- The arguments are cut, and then trimmed. -/
theorem argumentsOf_eq {text : String} (h : trimBlanks text ≠ "") :
    argumentsOf text = (splitText ',' text).map trimBlanks := by
  rw [argumentsOf, if_neg h]
  exact map_trimBlanks_splitText rfl text

/-- **Arguments are found again**, with commas between them and blanks around them. -/
theorem argumentsOf_of_padded (hplain : ∀ core ∈ cores, Plain core) (hne : cores ≠ [])
    (h : List.Forall₂ Padded cores texts) : argumentsOf (",".intercalate texts) = cores := by
  obtain ⟨htrim, hcommas⟩ :
      texts.map trimBlanks = cores ∧ ∀ text ∈ texts, ',' ∉ text.toList := by
    clear hne
    induction h with
    | nil => simp
    | @cons core text cores texts hpadded _ ih =>
      obtain ⟨hcore, hcores⟩ := List.forall_mem_cons.1 hplain
      obtain ⟨hmap, hall⟩ := ih hcores
      rw [List.map_cons, hcore.trimBlanks_eq hpadded, hmap]
      refine ⟨rfl, List.forall_mem_cons.2 ⟨hpadded.notMem rfl fun hmem => ?_, hall⟩⟩
      exact (hcore.isPlain_of_mem hmem).2.2 rfl
  have htexts : texts ≠ [] := by
    rintro rfl
    exact hne htrim.symm
  have hcut := splitText_intercalate htexts hcommas
  have hsome : trimBlanks (",".intercalate texts) ≠ "" := by
    intro hempty
    have hparts := map_trimBlanks_splitText (show isBlank ',' = false from rfl)
      (",".intercalate texts)
    rw [hempty, show splitText ',' (",".intercalate texts) = texts from hcut, htrim] at hparts
    exact (hplain "" (hparts ▸ List.mem_cons_self)).nonempty rfl
  rw [argumentsOf_eq hsome, ← htrim]
  exact congrArg (List.map trimBlanks) hcut

/-- **The name and the arguments** of an action are found again, with an equals sign behind the
name, commas between the arguments, and blanks around each. -/
theorem partsOfArgument_of_padded (hname : Plain name) (hplain : ∀ core ∈ cores, Plain core)
    (hne : cores ≠ []) (hnameText : Padded name nameText) (h : List.Forall₂ Padded cores texts) :
    partsOfArgument (nameText ++ "=" ++ ",".intercalate texts) = (name, cores) := by
  have hmark : '=' ∉ nameText.toList :=
    hnameText.notMem rfl fun hmem => (hname.isPlain_of_mem hmem).2.1 rfl
  have hcut := splitOnce?_append (",".intercalate texts) hmark
  rw [partsOfArgument, show splitOnce? '=' (nameText ++ "=" ++ ",".intercalate texts)
    = some (nameText, ",".intercalate texts) from hcut]
  dsimp only
  rw [hname.trimBlanks_eq hnameText, argumentsOf_of_padded hplain hne h]

end Settings

end StakeGovernance
