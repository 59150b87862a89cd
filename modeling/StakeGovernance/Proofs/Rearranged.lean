import Mathlib.Data.List.Forall2
import Mathlib.Data.List.Perm.Basic
import StakeGovernance.Json.Record
import StakeGovernance.Proofs.Maps
import StakeGovernance.Proofs.Printing

/-!
# Fields in any order

A table that is kept under hashes is written in whatever order its entries happen to stand. The
text is another one each time, and must be read as the same data. So a reader is asked for more
than to read what is written in one order: the fields of any object, at any depth, may have
changed places. A record is read by the names of its fields, each of which stands once; and a
table is put together entry by entry, which comes to the same in any order, because no key
stands twice.

* `StakeGovernance.Json.Rearranged` – the **same value with its fields in another order**;
* `StakeGovernance.Json.Survives` – data that is **read as it was written**, in whatever order,
  in a form that can be printed;
* `StakeGovernance.Json.endures_record` – the parts of a rearranged **record**;
* `StakeGovernance.Json.survives_list`, `StakeGovernance.OrderedMap.survives` – **lists** and
  **tables**.
-/

namespace StakeGovernance

/-- What is related to a member of a list. -/
theorem exists_of_forall₂ {α β : Type} {R : α → β → Prop} {as : List α} {bs : List β}
    (h : List.Forall₂ R as bs) {a : α} (ha : a ∈ as) : ∃ b ∈ bs, R a b := by
  induction h with
  | nil => cases ha
  | cons hhead _ ih =>
    rcases List.mem_cons.1 ha with rfl | ha
    · exact ⟨_, List.mem_cons_self, hhead⟩
    · obtain ⟨b, hb, hab⟩ := ih ha
      exact ⟨b, List.mem_cons_of_mem _ hb, hab⟩

theorem exists_of_forall₂_right {α β : Type} {R : α → β → Prop} {as : List α} {bs : List β}
    (h : List.Forall₂ R as bs) {b : β} (hb : b ∈ bs) : ∃ a ∈ as, R a b :=
  exists_of_forall₂ (List.Forall₂.flip (R := flip R) h) hb

namespace Json

/-- **The same value with its fields in another order**, in any of its objects. -/
inductive Rearranged : Json → Json → Prop where
  | refl (v : Json) : Rearranged v v
  | array {xs ys : List Json} (h : List.Forall₂ Rearranged xs ys) :
    Rearranged (.array xs) (.array ys)
  /-- The values are rearranged under their names, and then the fields change places. -/
  | object {fs gs hs : List (String × Json)} (hnames : gs.map Prod.fst = fs.map Prod.fst)
    (hvalues : List.Forall₂ Rearranged (fs.map Prod.snd) (gs.map Prod.snd)) (hperm : gs.Perm hs) :
    Rearranged (.object fs) (.object hs)

variable {α : Type} {v w : Json}

/-! ### Plain values -/

/-- A text has no order. -/
theorem Rearranged.of_string {s : String} (h : (Json.string s).Rearranged v) : v = .string s := by
  cases h
  rfl

/-- A number has no order. -/
theorem Rearranged.of_ofWord {bits : Nat} {n : Word bits} (h : (ofWord n).Rearranged v) :
    v = ofWord n := by
  cases h
  rfl

/-- A truth value has no order. -/
theorem Rearranged.of_bool {b : Bool} (h : (Json.bool b).Rearranged v) : v = .bool b := by
  cases h
  rfl

theorem forall₂_refl (vs : List Json) : List.Forall₂ Rearranged vs vs :=
  List.forall₂_same.2 fun v _ => .refl v

/-- Fields may change places. -/
theorem rearranged_of_perm {fs hs : List (String × Json)} (h : fs.Perm hs) :
    (Json.object fs).Rearranged (.object hs) := .object rfl (forall₂_refl _) h

/-- Values may be rearranged where they stand. -/
theorem rearranged_of_values {fs gs : List (String × Json)}
    (hnames : gs.map Prod.fst = fs.map Prod.fst)
    (hvalues : List.Forall₂ Rearranged (fs.map Prod.snd) (gs.map Prod.snd)) :
    (Json.object fs).Rearranged (.object gs) := .object hnames hvalues (.refl _)

/-- The items of an array keep their places. -/
theorem Rearranged.of_array {xs : List Json} (h : (Json.array xs).Rearranged v) :
    ∃ ys, List.Forall₂ Rearranged xs ys ∧ v = .array ys := by
  cases h with
  | refl => exact ⟨xs, forall₂_refl xs, rfl⟩
  | array hall => exact ⟨_, hall, rfl⟩

/-- The fields of an object keep their names. -/
theorem Rearranged.of_object {fs : List (String × Json)} (h : (Json.object fs).Rearranged v) :
    ∃ gs hs : List (String × Json), gs.map Prod.fst = fs.map Prod.fst ∧
      List.Forall₂ Rearranged (fs.map Prod.snd) (gs.map Prod.snd) ∧ gs.Perm hs ∧
      v = .object hs := by
  cases h with
  | refl => exact ⟨fs, fs, rfl, forall₂_refl _, .refl _, rfl⟩
  | object hnames hvalues hperm => exact ⟨_, _, hnames, hvalues, hperm, rfl⟩

/-- **A plain value stays plain** in another order. -/
theorem Plain.rearranged (h : Plain v) (hv : v.Rearranged w) : Plain w := by
  induction h generalizing w with
  | null | bool | int | string =>
    cases hv
    constructor
  | array _ ih =>
    obtain ⟨ys, hall, rfl⟩ := hv.of_array
    refine .array fun y hy => ?_
    obtain ⟨x, hx, hxy⟩ := exists_of_forall₂_right hall hy
    exact ih x hx hxy
  | object _ ih =>
    obtain ⟨gs, hs, -, hvalues, hperm, rfl⟩ := hv.of_object
    refine .object fun g hg => ?_
    obtain ⟨x, hx, hxg⟩ := exists_of_forall₂_right hvalues
      (List.mem_map_of_mem (hperm.mem_iff.2 hg))
    obtain ⟨f, hf, rfl⟩ := List.mem_map.1 hx
    exact ih f hf hxg

/-! ### Data -/

/-- **Data that survives** being written as JSON and read again, in whatever order its fields
are written. -/
structure Survives (write : α → Json) (read : Json → Option α) (a : α) : Prop where
  plain : Plain (write a)
  endures : ∀ v, (write a).Rearranged v → read v = some a

/-- **Data that survives** is read from its compact text, in whatever order its fields stand. -/
theorem Survives.parseText?_compact {write : α → Json} {read : Json → Option α} {a : α} {v : Json}
    (h : Survives write read a) (hv : (write a).Rearranged v) (tables : Bool) :
    (parseText? tables v.compact).bind read = some a := by
  rw [(h.plain.rearranged hv).parseText?_compact tables, Option.bind_some, h.endures v hv]

theorem Rearranged.word? {bits : Nat} {n : Word bits} (h : (ofWord n).Rearranged v) :
    v.word? = some n := by
  rw [h.of_ofWord]
  exact n.ofNat?_toNat

theorem Rearranged.bool? {b : Bool} (h : (Json.bool b).Rearranged v) : v.bool? = some b := by
  rw [h.of_bool]
  rfl

theorem Rearranged.text? {s : String} (h : (Json.string s).Rearranged v) : v.text? = some s := by
  rw [h.of_string]
  rfl

theorem survives_word {bits : Nat} (w : Word bits) : Survives ofWord word? w where
  plain := .int _
  endures _ hv := hv.word?

/-- What is written as a text survives if it is read. -/
theorem survives_of_string {text : α → String} {read : Json → Option α} {a : α}
    (h : read (.string (text a)) = some a) : Survives (fun a => .string (text a)) read a where
  plain := .string _
  endures v hv := by
    rw [hv.of_string]
    exact h

/-! ### Records -/

/-- The value of a field whose name no other field has. -/
theorem unique?_of_mem {fields : List (String × Json)} (hnodup : (fields.map Prod.fst).Nodup)
    {f : String × Json} (h : f ∈ fields) : unique? f.1 fields = some (some f.2) := by
  have hfilter : fields.filter (fun g => g.1 = f.1) = [f] := by
    induction fields with
    | nil => cases h
    | cons g rest ih =>
      rw [List.map_cons, List.nodup_cons] at hnodup
      rcases List.mem_cons.1 h with rfl | h
      · rw [List.filter_cons_of_pos (by simp)]
        refine congrArg _ (List.filter_eq_nil_iff.2 fun e he => ?_)
        have hne : e.1 ≠ f.1 := fun h => hnodup.1 (h ▸ List.mem_map_of_mem he)
        simpa using hne
      · have hne : g.1 ≠ f.1 := fun hg => hnodup.1 (hg ▸ List.mem_map_of_mem h)
        rw [List.filter_cons_of_neg (by simpa using hne)]
        exact ih hnodup.2 h
  unfold unique?
  rw [hfilter]

/-- **The parts of a record** are the values of its fields, in whatever order these stand. -/
theorem parts?_of_perm {names : List String} {fields gs : List (String × Json)}
    (hnames : gs.map Prod.fst = names) (hnodup : names.Nodup) (hperm : gs.Perm fields) :
    (Json.object fields).parts? names = some (gs.map Prod.snd) := by
  subst hnames
  have hfields : (fields.map Prod.fst).Nodup := (hperm.map Prod.fst).nodup_iff.1 hnodup
  have hunique : ((gs.map Prod.fst).mapM fun name => unique? name fields)
      = some (gs.map fun g => some g.2) :=
    mapM_map_of_read fun g hg => unique?_of_mem hfields (hperm.mem_iff.1 hg)
  show ((gs.map Prod.fst).mapM fun name => unique? name fields).bind _ = _
  rw [hunique]
  exact mapM_map_of_read fun _ _ => rfl

/-- **The parts of a rearranged record** are its parts, each of them rearranged; so what is
made of any such parts is made of the record. -/
theorem endures_record {names : List String} {fields : List (String × Json)}
    {build : List Json → Option α} {a : α} (hnames : fields.map Prod.fst = names)
    (hnodup : names.Nodup)
    (h : ∀ parts, List.Forall₂ Rearranged (fields.map Prod.snd) parts → build parts = some a)
    (hv : (Json.object fields).Rearranged v) : (v.parts? names).bind build = some a := by
  obtain ⟨gs, hs, hnames', hvalues, hperm, rfl⟩ := hv.of_object
  rw [parts?_of_perm (hnames'.trans hnames) hnodup hperm]
  exact h _ hvalues

/-- **The content of a rearranged variant** is its content, rearranged. -/
theorem Rearranged.variant? {name : String} {content : Json}
    (h : (Json.object [(name, content)]).Rearranged v) :
    ∃ w, content.Rearranged w ∧ v.variant? = some (name, some w) := by
  obtain ⟨gs, hs, hnames, hvalues, hperm, rfl⟩ := h.of_object
  obtain ⟨g, rfl, rfl⟩ := List.map_eq_singleton_iff.1 hnames
  obtain rfl := List.singleton_perm.1 hperm
  exact ⟨g.2, (List.forall₂_cons.1 hvalues).1, rfl⟩

/-! ### Lists -/

/-- Items are read one by one. -/
theorem mapM_eq_some {α β : Type} {f : α → Option β} {items : List α} {results : List β} :
    items.mapM f = some results ↔ List.Forall₂ (fun a b => f a = some b) items results := by
  induction items generalizing results with
  | nil =>
    rw [List.mapM_nil, List.forall₂_nil_left_iff]
    exact Option.some_inj.trans eq_comm
  | cons a rest ih =>
    rw [List.mapM_cons, List.forall₂_cons_left_iff, Option.bind_eq_bind, Option.bind_eq_some_iff]
    constructor
    · rintro ⟨b, hb, h⟩
      obtain ⟨bs, hbs, h⟩ := Option.bind_eq_some_iff.1 h
      cases h
      exact ⟨b, bs, hb, ih.1 hbs, rfl⟩
    · rintro ⟨b, bs, hb, hbs, rfl⟩
      exact ⟨b, hb, Option.bind_eq_some_iff.2 ⟨bs, ih.2 hbs, rfl⟩⟩

/-- **A list survives** if each of its items does. -/
theorem survives_list {write : α → Json} {read : Json → Option α} {items : List α}
    (h : ∀ a ∈ items, Survives write read a) :
    Survives (fun items => .array (items.map write)) (list? read) items where
  plain := .array fun x hx => by
    obtain ⟨a, ha, rfl⟩ := List.mem_map.1 hx
    exact (h a ha).plain
  endures v hv := by
    obtain ⟨ys, hall, rfl⟩ := hv.of_array
    have hread : List.Forall₂ (fun a y => read y = some a) items ys :=
      ((List.forall₂_and_left items ys).2 ⟨h, List.forall₂_map_left_iff.1 hall⟩).imp
        fun _ y hay => hay.1.endures y hay.2
    exact mapM_eq_some.2 hread.flip

/-! ### Tables -/

/-- Fields under the same names, with their values rearranged. -/
theorem forall₂_fields {fs gs : List (String × Json)}
    (hnames : gs.map Prod.fst = fs.map Prod.fst)
    (hvalues : List.Forall₂ Rearranged (fs.map Prod.snd) (gs.map Prod.snd)) :
    List.Forall₂ (fun f g => g.1 = f.1 ∧ f.2.Rearranged g.2) fs gs := by
  induction fs generalizing gs with
  | nil =>
    cases List.map_eq_nil_iff.1 hnames
    exact .nil
  | cons f fs ih =>
    cases gs with
    | nil => cases hnames
    | cons g gs =>
      obtain ⟨hname, hnames⟩ := List.cons.inj hnames
      obtain ⟨hvalue, hvalues⟩ := List.forall₂_cons.1 hvalues
      exact .cons ⟨hname, hvalue⟩ (ih hnames hvalues)

end Json

namespace OrderedMap

variable {κ ν : Type} [Ord κ] [Std.TransOrd κ] [Std.LawfulEqOrd κ] [DecidableEq κ]

/-- A map is the map of its entries. -/
theorem ofList_entries (m : OrderedMap κ ν) : ofList m.entries = m := by
  refine ext_get? fun k => ?_
  refine (foldl_view (fun m k => get? m k) (fun k v m => m.insert k v) (fun v _ => some v)
    (fun s k v j => get?_insert_eq s k j v) m .empty k).trans ?_
  cases h : m.get? k <;> rfl

/-- **A map is the map of its entries in any order**, because no key stands twice. -/
theorem ofList_of_perm {m : OrderedMap κ ν} {entries : List (κ × ν)}
    (h : m.entries.Perm entries) : ofList entries = m := by
  have hcomm : ∀ d ∈ m.entries, ∀ e ∈ m.entries, ∀ n : OrderedMap κ ν,
      (n.insert d.1 d.2).insert e.1 e.2 = (n.insert e.1 e.2).insert d.1 d.2 := by
    intro d hd e he n
    by_cases hkey : d.1 = e.1
    · have hvalue : some d.2 = some e.2 :=
        (get?_eq_some_iff.2 hd).symm.trans (hkey ▸ get?_eq_some_iff.2 he)
      rw [hkey, Option.some.inj hvalue]
    · exact insert_comm hkey n d.2 e.2
  have hfold : ofList m.entries = ofList entries :=
    h.foldl_eq' (f := fun (n : OrderedMap κ ν) (e : κ × ν) => n.insert e.1 e.2) hcomm empty
  rw [← hfold, ofList_entries]

variable {key : κ → String} {readKey : String → Option κ} {value : ν → Json}
  {read : Json → Option ν} {m : OrderedMap κ ν}

/-- **A table survives** if its keys are read as they are written and its values survive. -/
theorem survives (hkey : ∀ k, readKey (key k) = some k)
    (h : ∀ e ∈ m.entries, Json.Survives value read e.2) :
    Json.Survives (toJson key value) (ofJson? readKey read) m where
  plain := .object fun f hf => by
    obtain ⟨e, he, rfl⟩ := List.mem_map.1 hf
    exact (h e he).plain
  endures v hv := by
    obtain ⟨gs, hs, hnames, hvalues, hperm, rfl⟩ := hv.of_object
    have hrows : List.Forall₂ (fun e g => g.1 = key e.1 ∧ (value e.2).Rearranged g.2)
        m.entries gs := List.forall₂_map_left_iff.1 (Json.forall₂_fields hnames hvalues)
    have hread : List.Forall₂
        (fun e g => (do return (← readKey g.1, ← read g.2) : Option (κ × ν)) = some e)
        m.entries gs := by
      refine ((List.forall₂_and_left m.entries gs).2 ⟨h, hrows⟩).imp fun e g hg => ?_
      obtain ⟨hvalue, hname, hrearranged⟩ := hg
      rw [hname, hkey, hvalue.endures g.2 hrearranged]
      rfl
    -- the order in which the fields stand is the order in which the entries are read
    obtain ⟨entries, hentries, hperm'⟩ := List.perm_comp_forall₂ hperm.symm hread.flip
    show Option.bind (hs.mapM _) _ = _
    rw [Json.mapM_eq_some.2 hentries]
    exact congrArg some (ofList_of_perm hperm'.symm)

end OrderedMap

end StakeGovernance
