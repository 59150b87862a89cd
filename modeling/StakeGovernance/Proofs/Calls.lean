import StakeGovernance.Call

/-!
# Reading calls backwards

From what a call answered, the answers of its parts are recovered: a sequence succeeds
exactly if its parts succeed one after the other, and it fails exactly if one of them
fails in the state that the ones before have left. The lemmas come in pairs, one for
success and one for failure, for computations without a state
(`StakeGovernance.Checked`) and for calls (`StakeGovernance.Call`).

* `StakeGovernance.Checked.bind_eq_ok`, `StakeGovernance.Call.bind_eq_ok`,
  `StakeGovernance.Call.bind_eq_error` – **sequences**;
* `StakeGovernance.Checked.refuse_eq_ok` – a **check** in front of the rest;
* `StakeGovernance.Call.ComesTo` – what a call **comes to**, success and failure in one;
* `StakeGovernance.Call.forEach_of_rest`, `StakeGovernance.Call.forEach_of_step`,
  `StakeGovernance.Call.Keeps.forEach` – **loops**, from what a single round does.
-/

namespace StakeGovernance

/-! ### Computations without a state -/

namespace Checked

variable {ε δ α β : Type} {e : ε}

theorem bind_eq_ok {x : Except ε α} {f : α → Except ε β} {b : β} :
    x >>= f = .ok b ↔ ∃ a, x = .ok a ∧ f a = .ok b := by
  cases x <;> simp [bind, Except.bind]

theorem bind_eq_error {x : Except ε α} {f : α → Except ε β} :
    x >>= f = .error e ↔ x = .error e ∨ ∃ a, x = .ok a ∧ f a = .error e := by
  cases x <;> simp [bind, Except.bind]

@[simp] theorem pure_eq_ok {a b : α} : (pure a : Except ε α) = .ok b ↔ a = b := by
  simp [pure, Except.pure]

@[simp] theorem throw_ne_ok {b : α} : ¬ (throw e : Except ε α) = .ok b := by
  simp [throw, throwThe, MonadExceptOf.throw]

/-- **A check in front of the rest** was passed if the whole succeeded. -/
theorem refuse_eq_ok {c : Prop} [Decidable c] {f : α → Except ε β} {x : Except ε β} {b : β} :
    (if c then (throw e : Except ε α) >>= f else x) = .ok b ↔ ¬c ∧ x = .ok b := by
  split <;> simp_all [bind_eq_ok]

theorem refuse_eq_error {d : ε} {c : Prop} [Decidable c] {f : α → Except ε β}
    {x : Except ε β} :
    (if c then (throw e : Except ε α) >>= f else x) = .error d ↔ c ∧ e = d ∨ ¬c ∧ x = .error d := by
  split <;> simp_all [bind_eq_error, throw, throwThe, MonadExceptOf.throw]

/-- Two ways to begin, and one way to go on. -/
theorem ite_bind_eq_ok {c : Prop} [Decidable c] {x y : Except ε α} {f : α → Except ε β} {b : β} :
    (if c then x >>= f else y >>= f) = .ok b ↔
      ∃ a, (if c then x else y) = .ok a ∧ f a = .ok b := by
  split <;> exact bind_eq_ok

/-- **A row of checks** is passed if each of them is. -/
theorem forM_eq_ok {check : α → Except ε PUnit} {items : List α} {u : PUnit} :
    items.forM check = .ok u ↔ ∀ a ∈ items, check a = .ok () := by
  induction items with
  | nil => exact ⟨fun _ _ ha => absurd ha List.not_mem_nil, fun _ => rfl⟩
  | cons first rest ih =>
    rw [List.forM, bind_eq_ok, List.forall_mem_cons, ← ih]
    constructor
    · rintro ⟨_, hfirst, hrest⟩
      exact ⟨hfirst, hrest⟩
    · rintro ⟨hfirst, hrest⟩
      exact ⟨(), hfirst, hrest⟩

theorem mapError_eq_ok {x : Except ε α} {f : ε → δ} {a : α} :
    x.mapError f = .ok a ↔ x = .ok a := by
  cases x with
  | ok b =>
    constructor
    · intro h
      cases h
      rfl
    · intro h
      cases h
      rfl
  | error e =>
    constructor
    · intro h
      cases h
    · intro h
      cases h

end Checked

/-! ### Calls -/

namespace Call

variable {ε δ σ τ α β : Type} {s t u : σ} {e : ε}

theorem bind_eq_ok {x : EStateM ε σ α} {f : α → EStateM ε σ β} {b : β} :
    (x >>= f) s = .ok b u ↔ ∃ a t, x s = .ok a t ∧ f a t = .ok b u := by
  show EStateM.bind x f s = _ ↔ _
  unfold EStateM.bind
  cases hx : x s with
  | ok a t =>
    constructor
    · intro h
      exact ⟨a, t, rfl, h⟩
    · rintro ⟨_, _, h, hf⟩
      cases h
      exact hf
  | error d t =>
    constructor
    · intro h
      cases h
    · rintro ⟨_, _, h, -⟩
      cases h

theorem bind_eq_error {x : EStateM ε σ α} {f : α → EStateM ε σ β} :
    (x >>= f) s = .error e u ↔
      x s = .error e u ∨ ∃ a t, x s = .ok a t ∧ f a t = .error e u := by
  show EStateM.bind x f s = _ ↔ _
  unfold EStateM.bind
  cases hx : x s with
  | ok a t =>
    refine ⟨fun h => Or.inr ⟨a, t, rfl, h⟩, ?_⟩
    rintro (h | ⟨_, _, h, hf⟩)
    · cases h
    · cases h
      exact hf
  | error d t =>
    constructor
    · intro h
      cases h
      exact Or.inl rfl
    · rintro (h | ⟨_, _, h, -⟩)
      · cases h
        rfl
      · cases h

@[simp] theorem pure_eq_ok {a b : α} : (pure a : EStateM ε σ α) s = .ok b u ↔ a = b ∧ s = u := by
  show EStateM.Result.ok a s = _ ↔ _
  simp

@[simp] theorem pure_ne_error {a : α} : ¬ (pure a : EStateM ε σ α) s = .error e u := by
  show ¬ EStateM.Result.ok a s = _
  simp

@[simp] theorem throw_ne_ok {b : α} : ¬ (throw e : EStateM ε σ α) s = .ok b u := by
  show ¬ EStateM.Result.error e s = _
  simp

@[simp] theorem throw_eq_error {e' : ε} :
    (throw e : EStateM ε σ α) s = .error e' u ↔ e = e' ∧ s = u := by
  show EStateM.Result.error e s = _ ↔ _
  simp

@[simp] theorem get_eq_ok : (get : EStateM ε σ σ) s = .ok t u ↔ s = t ∧ s = u := by
  show EStateM.Result.ok s s = _ ↔ _
  simp

@[simp] theorem set_eq_ok {x : PUnit} :
    (set t : EStateM ε σ PUnit) s = .ok x u ↔ t = u := by
  show EStateM.Result.ok PUnit.unit t = _ ↔ _
  simp

@[simp] theorem set_ne_error : ¬ (set t : EStateM ε σ PUnit) s = .error e u := by
  show ¬ EStateM.Result.ok PUnit.unit t = _
  simp

@[simp] theorem modify_eq_ok {f : σ → σ} {x : PUnit} :
    (modify f : EStateM ε σ PUnit) s = .ok x u ↔ f s = u := by
  show EStateM.Result.ok PUnit.unit (f s) = _ ↔ _
  simp

@[simp] theorem modify_ne_error {f : σ → σ} : ¬ (modify f : EStateM ε σ PUnit) s = .error e u := by
  show ¬ EStateM.Result.ok PUnit.unit (f s) = _
  simp

/-- A computation without a state leaves the state as it is. -/
@[simp] theorem lift_eq_ok {x : Except ε α} {a : α} :
    (liftM x : EStateM ε σ α) s = .ok a u ↔ x = .ok a ∧ s = u := by
  cases x with
  | ok b =>
    show EStateM.Result.ok b s = _ ↔ _
    simp
  | error d =>
    show EStateM.Result.error d s = _ ↔ _
    simp

@[simp] theorem lift_eq_error {x : Except ε α} :
    (liftM x : EStateM ε σ α) s = .error e u ↔ x = .error e ∧ s = u := by
  cases x with
  | ok b =>
    show EStateM.Result.ok b s = _ ↔ _
    simp
  | error d =>
    show EStateM.Result.error d s = _ ↔ _
    simp

theorem get_bind {f : σ → EStateM ε σ β} : (get >>= f) s = f s s := rfl

theorem lift_ok_bind {f : α → EStateM ε σ β} (a : α) :
    ((liftM (.ok a : Except ε α) : EStateM ε σ α) >>= f) s = f a s := rfl

theorem bind_of_ok {x : EStateM ε σ α} {f : α → EStateM ε σ β} {a : α} (h : x s = .ok a t) :
    (x >>= f) s = f a t := by
  show EStateM.bind x f s = _
  unfold EStateM.bind
  rw [h]

/-- A call that begins with looking at the state goes on in that state. -/
theorem get_bind_eq_ok {f : σ → EStateM ε σ β} {b : β} :
    (get >>= f) s = .ok b u ↔ f s s = .ok b u := Iff.rfl

theorem get_bind_eq_error {f : σ → EStateM ε σ β} :
    (get >>= f) s = .error e u ↔ f s s = .error e u := Iff.rfl

/-- A call that begins with a computation without a state goes on in the same state. -/
theorem lift_bind_eq_ok {x : Except ε α} {f : α → EStateM ε σ β} {b : β} :
    (liftM x >>= f) s = .ok b u ↔ ∃ a, x = .ok a ∧ f a s = .ok b u := by
  cases x with
  | ok a =>
    constructor
    · intro h
      exact ⟨a, rfl, h⟩
    · rintro ⟨_, h, hf⟩
      cases h
      exact hf
  | error d =>
    constructor
    · intro h
      cases h
    · rintro ⟨_, h, -⟩
      cases h

theorem lift_bind_eq_error {x : Except ε α} {f : α → EStateM ε σ β} :
    (liftM x >>= f) s = .error e u ↔
      (x = .error e ∧ s = u) ∨ ∃ a, x = .ok a ∧ f a s = .error e u := by
  rw [bind_eq_error, lift_eq_error]
  refine or_congr Iff.rfl ⟨?_, ?_⟩
  · rintro ⟨a, _, h, hf⟩
    obtain ⟨hx, rfl⟩ := lift_eq_ok.1 h
    exact ⟨a, hx, hf⟩
  · rintro ⟨a, h, hf⟩
    exact ⟨a, s, lift_eq_ok.2 ⟨h, rfl⟩, hf⟩

/-- A call that ends with setting the state and returning does not fail on the way. -/
theorem set_pure_eq_ok {a b : β} :
    ((set t : EStateM ε σ PUnit) >>= fun _ => (pure a : EStateM ε σ β)) s = .ok b u ↔
      a = b ∧ t = u := by
  show EStateM.Result.ok a t = _ ↔ _
  simp

theorem set_pure_ne_error {a : β} :
    ¬ ((set t : EStateM ε σ PUnit) >>= fun _ => (pure a : EStateM ε σ β)) s = .error e u := by
  show ¬ EStateM.Result.ok a t = _
  simp

/-- A call whose result is only put into another form does what it did before. -/
theorem bind_pure_eq_ok {x : EStateM ε σ α} {f : α → β} {b : β} :
    (x >>= fun a => (pure (f a) : EStateM ε σ β)) s = .ok b u ↔ ∃ a, x s = .ok a u ∧ f a = b := by
  rw [bind_eq_ok]
  refine exists_congr fun a => ⟨?_, ?_⟩
  · rintro ⟨t, hx, hpure⟩
    obtain ⟨hf, rfl⟩ := pure_eq_ok.1 hpure
    exact ⟨hx, hf⟩
  · rintro ⟨hx, rfl⟩
    exact ⟨u, hx, rfl⟩

theorem bind_pure_eq_error {x : EStateM ε σ α} {f : α → β} :
    (x >>= fun a => (pure (f a) : EStateM ε σ β)) s = .error e u ↔ x s = .error e u := by
  rw [bind_eq_error]
  refine ⟨?_, .inl⟩
  rintro (hx | ⟨a, t, -, hpure⟩)
  · exact hx
  · exact absurd hpure pure_ne_error

/-- **A check in front of the rest** was passed if the whole succeeded. -/
theorem refuse_eq_ok {c : Prop} [Decidable c] {f : α → EStateM ε σ β} {x : EStateM ε σ β} {b : β} :
    (if c then (throw e : EStateM ε σ α) >>= f else x) s = .ok b u ↔ ¬c ∧ x s = .ok b u := by
  split <;> simp_all [bind_eq_ok]

theorem refuse_eq_error {d : ε} {c : Prop} [Decidable c] {f : α → EStateM ε σ β}
    {x : EStateM ε σ β} :
    (if c then (throw e : EStateM ε σ α) >>= f else x) s = .error d u ↔
      (c ∧ e = d ∧ s = u) ∨ ¬c ∧ x s = .error d u := by
  split <;> simp_all [bind_eq_error]

/-! ### Parts of the state -/

variable {read : σ → τ} {write : τ → σ → σ} {wrap : ε → δ} {call : Call ε τ α}

theorem part_eq_ok {a : α} :
    part read write wrap call s = .ok a u ↔ ∃ t, call (read s) = .ok a t ∧ u = write t s := by
  unfold part
  cases call (read s) with
  | ok b t =>
    constructor
    · intro h
      cases h
      exact ⟨t, rfl, rfl⟩
    · rintro ⟨_, h, rfl⟩
      cases h
      rfl
  | error c t =>
    constructor
    · intro h
      cases h
    · rintro ⟨_, h, -⟩
      cases h

theorem part_eq_error {d : δ} :
    part read write wrap call s = .error d u ↔
      ∃ c t, call (read s) = .error c t ∧ d = wrap c ∧ u = write t s := by
  unfold part
  cases call (read s) with
  | ok b t =>
    constructor
    · intro h
      cases h
    · rintro ⟨_, _, h, -⟩
      cases h
  | error c t =>
    constructor
    · intro h
      cases h
      exact ⟨c, t, rfl, rfl, rfl⟩
    · rintro ⟨_, _, h, rfl, rfl⟩
      cases h
      rfl

/-! ### What a call keeps -/

/-- The state that a call leaves behind, whether it succeeds or not. -/
def after (call : Call ε σ α) (s : σ) : σ := (call.runFrom s).2

theorem after_of_ok {call : Call ε σ α} {a : α} (h : call s = .ok a t) : call.after s = t := by
  simp [after, runFrom, h]

theorem after_of_error {call : Call ε σ α} (h : call s = .error e t) : call.after s = t := by
  simp [after, runFrom, h]

theorem eq_ok_of_runFrom {call : Call ε σ α} {a : α} (h : (call.runFrom s).1 = .ok a) :
    call s = .ok a (call.after s) := by
  cases hcall : call s with
  | ok b t =>
    rw [runFrom, hcall] at h
    cases h
    rw [after_of_ok hcall]
  | error e t =>
    rw [runFrom, hcall] at h
    cases h

/-- **A call keeps a property** of the state, whether it succeeds or not. -/
def Keeps (P : σ → Prop) (call : Call ε σ α) : Prop := ∀ s, P s → P (call.after s)

variable {P : σ → Prop}

theorem Keeps.of_ok {call : Call ε σ α} (h : Keeps P call) {a : α} (hc : call s = .ok a t)
    (hs : P s) : P t := after_of_ok hc ▸ h s hs

theorem Keeps.of_error {call : Call ε σ α} (h : Keeps P call) (hc : call s = .error e t)
    (hs : P s) : P t := after_of_error hc ▸ h s hs

/-- A call keeps what it keeps when it succeeds and when it fails. -/
theorem keeps_of {call : Call ε σ α} (hok : ∀ s a t, P s → call s = .ok a t → P t)
    (herror : ∀ s e t, P s → call s = .error e t → P t) : Keeps P call := by
  intro s hs
  cases h : call s with
  | ok a t => exact after_of_ok h ▸ hok s a t hs h
  | error e t => exact after_of_error h ▸ herror s e t hs h

theorem Keeps.pure (a : α) : Keeps P (pure a : Call ε σ α) := fun _ hs => hs

theorem Keeps.throw (e : ε) : Keeps P (throw e : Call ε σ α) := fun _ hs => hs

theorem Keeps.lift (x : Except ε α) : Keeps P (liftM x : Call ε σ α) :=
  keeps_of (fun _ _ _ hs h => (lift_eq_ok.1 h).2 ▸ hs) fun _ _ _ hs h => (lift_eq_error.1 h).2 ▸ hs

theorem Keeps.bind {x : Call ε σ α} {f : α → Call ε σ β} (hx : Keeps P x)
    (hf : ∀ a, Keeps P (f a)) : Keeps P (x >>= f) := by
  refine keeps_of (fun s b u hs h => ?_) fun s e u hs h => ?_
  · obtain ⟨a, t, ha, hb⟩ := bind_eq_ok.1 h
    exact (hf a).of_ok hb (hx.of_ok ha hs)
  · rcases bind_eq_error.1 h with ha | ⟨a, t, ha, hb⟩
    · exact hx.of_error ha hs
    · exact (hf a).of_error hb (hx.of_ok ha hs)

theorem Keeps.set (h : P t) : Keeps P (set t : Call ε σ PUnit) := fun _ _ => h

theorem Keeps.modify {f : σ → σ} (h : ∀ s, P s → P (f s)) :
    Keeps P (modify f : Call ε σ PUnit) := fun s hs => h s hs

/-- A check in front of the rest changes nothing. -/
theorem Keeps.refuse {c : Prop} [Decidable c] {f : α → Call ε σ β} {x : Call ε σ β}
    (h : Keeps P x) : Keeps P (if c then (MonadExcept.throw e : Call ε σ α) >>= f else x) := by
  split
  · exact fun _ hs => hs
  · exact h

/-- A call on a part of the state keeps what putting the part back keeps. -/
theorem Keeps.part (h : ∀ s, P s → P (write (call.after (read s)) s)) :
    Keeps P (part read write wrap call) := by
  refine keeps_of (fun s a u hs hu => ?_) fun s e u hs hu => ?_
  · obtain ⟨t, ht, rfl⟩ := part_eq_ok.1 hu
    exact after_of_ok ht ▸ h s hs
  · obtain ⟨c, t, ht, -, rfl⟩ := part_eq_error.1 hu
    exact after_of_error ht ▸ h s hs

/-- The state that was read is the state as it is. -/
theorem Keeps.get_bind {f : σ → Call ε σ β} (h : ∀ s, P s → P ((f s).after s)) :
    Keeps P (MonadState.get >>= f) := fun s hs => h s hs

/-! ### Loops -/

/-- **A loop whose rounds all succeed**, as long as what is left of the list fits the state,
does to the state what its rounds do one after the other. -/
theorem forEach_of_rest (items : List β) (round : β → Call ε σ Unit) (P : List β → σ → Prop)
    (next : β → σ → σ)
    (h : ∀ x xs s, P (x :: xs) s → round x s = .ok () (next x s) ∧ P xs (next x s))
    (hs : P items s) :
    forEach items round s = .ok () (items.foldl (fun s x => next x s) s) ∧
      P [] (items.foldl (fun s x => next x s) s) := by
  induction items generalizing s with
  | nil => exact ⟨rfl, hs⟩
  | cons x xs ih =>
    obtain ⟨hx, hP⟩ := h x xs s hs
    obtain ⟨hxs, hQ⟩ := ih hP
    exact ⟨bind_eq_ok.2 ⟨(), _, hx, hxs⟩, hQ⟩

/-- The same of a loop that collects what its rounds return. -/
theorem collect_of_rest (items : List β) (round : β → Call ε σ α) (P : List β → σ → Prop)
    (result : β → α) (next : β → σ → σ)
    (h : ∀ x xs s, P (x :: xs) s → round x s = .ok (result x) (next x s) ∧ P xs (next x s))
    (hs : P items s) :
    collect items round s = .ok (items.map result) (items.foldl (fun s x => next x s) s) := by
  induction items generalizing s with
  | nil => rfl
  | cons x xs ih =>
    obtain ⟨hx, hP⟩ := h x xs s hs
    exact bind_eq_ok.2 ⟨_, _, hx, bind_eq_ok.2 ⟨_, _, ih hP, rfl⟩⟩

/-- **A loop whose rounds all succeed** while an invariant holds does to the state what
its rounds do one after the other. -/
theorem forEach_of_step (items : List β) (round : β → Call ε σ Unit) (P : σ → Prop)
    (next : β → σ → σ)
    (h : ∀ x ∈ items, ∀ s, P s → round x s = .ok () (next x s) ∧ P (next x s)) (hs : P s) :
    forEach items round s = .ok () (items.foldl (fun s x => next x s) s) ∧
      P (items.foldl (fun s x => next x s) s) := by
  -- the invariant holds before the first round, and each round hands it on to the rest
  have hround : ∀ x xs s, (P s ∧ ∀ y ∈ x :: xs, y ∈ items) →
      round x s = .ok () (next x s) ∧ P (next x s) ∧ ∀ y ∈ xs, y ∈ items := by
    intro x xs s hP
    obtain ⟨hx, hnext⟩ := h x (hP.2 x List.mem_cons_self) s hP.1
    exact ⟨hx, hnext, fun y hy => hP.2 y (List.mem_cons_of_mem _ hy)⟩
  obtain ⟨hloop, hP, -⟩ := forEach_of_rest items round (fun xs s => P s ∧ ∀ y ∈ xs, y ∈ items)
    next hround ⟨hs, fun _ hx => hx⟩
  exact ⟨hloop, hP⟩

variable {items : List β} {round : β → Call ε σ Unit}

/-- **What every round keeps, the loop keeps**, whether it comes to its end or not. -/
theorem Keeps.forEach (h : ∀ x ∈ items, Keeps P (round x)) : Keeps P (forEach items round) := by
  induction items with
  | nil => exact Keeps.pure ()
  | cons x xs ih =>
    exact (h x List.mem_cons_self).bind fun _ => ih fun y hy => h y (List.mem_cons_of_mem _ hy)

theorem Keeps.collect {round : β → Call ε σ α} (h : ∀ x ∈ items, Keeps P (round x)) :
    Keeps P (collect items round) := by
  induction items with
  | nil => exact Keeps.pure []
  | cons x xs ih =>
    exact (h x List.mem_cons_self).bind fun _ =>
      (ih fun y hy => h y (List.mem_cons_of_mem _ hy)).bind fun _ => Keeps.pure _

/-! ### What a call comes to -/

section ComesTo

variable {ε σ τ α β : Type} {view : σ → τ} {call : Call ε σ α} {s t : σ} {a : α} {e : ε}

/-- **What a call comes to**, seen through a view of the state: it succeeds with a result and
leaves a state that looks like that, or it fails and leaves one that looks as before. -/
structure ComesTo (view : σ → τ) (call : Call ε σ α) (s : σ) (x : Except ε (α × τ)) : Prop where
  of_ok : ∀ {a t}, call s = .ok a t → x = .ok (a, view t)
  of_error : ∀ {e t}, call s = .error e t → x = .error e ∧ view t = view s

theorem ComesTo.done (h : call s = .ok a t) : ComesTo view call s (.ok (a, view t)) := by
  constructor
  · intro b u hu
    cases h.symm.trans hu
    rfl
  · intro e u hu
    cases h.symm.trans hu

theorem ComesTo.refused (h : call s = .error e t) (hview : view t = view s) :
    ComesTo view call s (.error e) := by
  constructor
  · intro a u hu
    cases h.symm.trans hu
  · intro d u hu
    cases h.symm.trans hu
    exact ⟨rfl, hview⟩

/-- A call that begins with looking at the state. -/
theorem ComesTo.get_bind {f : σ → Call ε σ α} {x : Except ε (α × τ)}
    (h : ComesTo view (f s) s x) : ComesTo view (MonadState.get >>= f) s x :=
  ⟨fun hcall => h.of_ok (get_bind_eq_ok.1 hcall),
    fun hcall => h.of_error (get_bind_eq_error.1 hcall)⟩

/-- A call that begins with a computation without a state. -/
theorem ComesTo.lift_bind {x : Except ε β} {f : β → Call ε σ α} {g : β → Except ε (α × τ)}
    (h : ∀ b, ComesTo view (f b) s (g b)) : ComesTo view (liftM x >>= f) s (x >>= g) := by
  constructor
  · intro a t hcall
    obtain ⟨b, rfl, hf⟩ := lift_bind_eq_ok.1 hcall
    exact (h b).of_ok hf
  · intro e t hcall
    rcases lift_bind_eq_error.1 hcall with ⟨rfl, rfl⟩ | ⟨b, rfl, hf⟩
    · exact ⟨rfl, rfl⟩
    · exact (h b).of_error hf

/-- A call that begins with a check. -/
theorem ComesTo.refuse {c : Prop} [Decidable c] {f : β → Call ε σ α} {x : Except ε (α × τ)}
    (h : ComesTo view call s x) :
    ComesTo view (if c then (throw e : Call ε σ β) >>= f else call) s
      (if c then .error e else x) := by
  split
  · exact .refused rfl rfl
  · exact h

/-- What is said of a call whose state is looked at as it is. -/
theorem ComesTo.eq_ok_iff {x : Except ε (α × σ)} (h : ComesTo id call s x) :
    call s = .ok a t ↔ x = .ok (a, t) := by
  refine ⟨h.of_ok, fun hx => ?_⟩
  cases hcall : call s with
  | ok b u =>
    cases (h.of_ok hcall).symm.trans hx
    rfl
  | error e u => cases (h.of_error hcall).1.symm.trans hx

/-- What is said of a call without a result. -/
theorem ComesTo.eq_ok {call : Call ε σ Unit} {x : Except ε τ} {u : Unit}
    (h : ComesTo view call s (x.map fun c => ((), c))) (hcall : call s = .ok u t) :
    x = .ok (view t) := by
  have hx := h.of_ok hcall
  cases x with
  | error e => cases hx
  | ok c =>
    cases hx
    rfl

theorem ComesTo.eq_error {call : Call ε σ Unit} {x : Except ε τ}
    (h : ComesTo view call s (x.map fun c => ((), c))) (hcall : call s = .error e t) :
    x = .error e ∧ view t = view s := by
  obtain ⟨hx, hview⟩ := h.of_error hcall
  cases x with
  | error d =>
    cases hx
    exact ⟨rfl, hview⟩
  | ok c => cases hx

end ComesTo

end Call

end StakeGovernance
