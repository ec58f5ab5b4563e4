import Mathlib.Logic.Basic
import Mathlib.Order.Defs.Unbundled

/-!
# Procedures with errors and panics

A procedure of a sequential program that owns its state: it runs on a state
`σ` and either returns a value, returns an error the caller can handle, or
panics. An error keeps the changes made before it (the state is mutated in
place and nothing rolls it back), a panic ends the program.

`Proc` is a monad, so a procedure body reads as the source does: `bind` passes
the state on, an error or a panic ends the body.

Three ways to reason about a procedure, from exact to coarse:

* `wp` is its weakest precondition, with one postcondition for each way to end;
  the rules compute it through the combinators;
* `Moves R` says that every surviving run is an `R`-step from its start, for a
  reflexive and transitive `R`, and composes without looking at values;
* `Fixes f` is `Moves` for "the projection `f` of the state is unchanged".

`MovesFrom P R` is `Moves R` for the states with a property `P` that `R` keeps.
-/

theorem Except.ok_bind {ε α β : Type} (a : α) (f : α → Except ε β) : (Except.ok a >>= f) = f a := rfl

/-- A sequence of two computations succeeds when both do. -/
theorem Except.bind_eq_ok {ε α β : Type} {x : Except ε α} {f : α → Except ε β} {b : β} :
    (x >>= f) = .ok b ↔ ∃ a, x = .ok a ∧ f a = .ok b := by
  rcases x with e | a
  · constructor
    · intro h
      cases h
    · rintro ⟨a, h, -⟩
      cases h
  · constructor
    · exact fun h => ⟨a, rfl, h⟩
    · rintro ⟨_, h, hf⟩
      obtain rfl := Except.ok.inj h
      exact hf

/-- How a procedure ends. -/
inductive Outcome (ε π σ α : Type) : Type where
  /-- it returned `a` -/
  | ok (a : α) (s : σ)
  /-- it returned the error `e` -/
  | err (e : ε) (s : σ)
  /-- it panicked at `p` -/
  | panic (p : π)

namespace Outcome

variable {ε π σ α : Type}

/-- The state left behind, if the program survived. -/
def state? : Outcome ε π σ α → Option σ
  | ok _ s => some s
  | err _ s => some s
  | panic _ => none

/-- The place of the panic, if there was one. -/
def panic? : Outcome ε π σ α → Option π
  | panic p => some p
  | _ => none

@[simp] theorem state?_ok (a : α) (s : σ) : (ok a s : Outcome ε π σ α).state? = some s := rfl

@[simp] theorem state?_err (e : ε) (s : σ) : (err e s : Outcome ε π σ α).state? = some s := rfl

@[simp] theorem state?_panic (p : π) : (panic p : Outcome ε π σ α).state? = none := rfl

@[simp] theorem panic?_ok (a : α) (s : σ) : (ok a s : Outcome ε π σ α).panic? = none := rfl

@[simp] theorem panic?_err (e : ε) (s : σ) : (err e s : Outcome ε π σ α).panic? = none := rfl

@[simp] theorem panic?_panic (p : π) : (panic p : Outcome ε π σ α).panic? = some p := rfl

end Outcome

/-- A procedure on the state `σ` with errors `ε` and panics `π`. -/
def Proc (ε π σ α : Type) : Type := σ → Outcome ε π σ α

namespace Proc

variable {ε π σ α β : Type}

/-- Sequencing: the second part only runs after a normal return. -/
protected def bind (x : Proc ε π σ α) (f : α → Proc ε π σ β) : Proc ε π σ β := fun s =>
  match x s with
  | .ok a s' => f a s'
  | .err e s' => .err e s'
  | .panic p => .panic p

instance : Monad (Proc ε π σ) where
  pure a := fun s => .ok a s
  bind := Proc.bind

/-- The current state. -/
def get : Proc ε π σ σ := fun s => .ok s s

/-- Change the state. -/
def modify (f : σ → σ) : Proc ε π σ Unit := fun s => .ok () (f s)

/-- Return an error. -/
def throw (e : ε) : Proc ε π σ α := fun s => .err e s

/-- Panic. -/
def crash (p : π) : Proc ε π σ α := fun _ => .panic p

/-- A computation that may panic and touches no state. -/
def lift (x : Except π α) : Proc ε π σ α := fun s =>
  match x with
  | .ok a => .ok a s
  | .error p => .panic p

/-- `assert!`: panic unless the condition holds. -/
def assert (c : Bool) (p : π) : Proc ε π σ Unit := fun s =>
  if c then .ok () s else .panic p

/-- Run and drop the error: the caller carries on whichever way it returned. -/
def ignore (x : Proc ε π σ α) : Proc ε π σ Unit := fun s =>
  match x s with
  | .ok _ s' => .ok () s'
  | .err _ s' => .ok () s'
  | .panic p => .panic p

/-- Run and hand the caller the result as a value. -/
def attempt (x : Proc ε π σ α) : Proc ε π σ (Except ε α) := fun s =>
  match x s with
  | .ok a s' => .ok (.ok a) s'
  | .err e s' => .ok (.error e) s'
  | .panic p => .panic p

/-- Run a body for each element of a list, in order. -/
def each (f : α → Proc ε π σ Unit) : List α → Proc ε π σ Unit
  | [] => pure ()
  | a :: l => do
    f a
    each f l

/-! ## Running the combinators -/

@[simp] theorem pure_run (a : α) (s : σ) : (pure a : Proc ε π σ α) s = .ok a s := rfl

theorem bind_run (x : Proc ε π σ α) (f : α → Proc ε π σ β) (s : σ) :
    (x >>= f) s = match x s with
      | .ok a s' => f a s'
      | .err e s' => .err e s'
      | .panic p => .panic p := rfl

theorem bind_ok {x : Proc ε π σ α} {f : α → Proc ε π σ β} {s s' : σ} {a : α}
    (h : x s = .ok a s') : (x >>= f) s = f a s' := by
  rw [bind_run, h]

theorem bind_err {x : Proc ε π σ α} {f : α → Proc ε π σ β} {s s' : σ} {e : ε}
    (h : x s = .err e s') : (x >>= f) s = .err e s' := by
  rw [bind_run, h]

theorem bind_panic {x : Proc ε π σ α} {f : α → Proc ε π σ β} {s : σ} {p : π}
    (h : x s = .panic p) : (x >>= f) s = .panic p := by
  rw [bind_run, h]

/-! ## Weakest preconditions -/

/-- The states from which `x` ends as the postconditions say: `Q` after a
normal return, `E` after an error, `N` for a panic. -/
def wp (x : Proc ε π σ α) (Q : α → σ → Prop) (E : ε → σ → Prop) (N : π → Prop) (s : σ) : Prop :=
  match x s with
  | .ok a s' => Q a s'
  | .err e s' => E e s'
  | .panic p => N p

section Wp

variable {Q Q' : α → σ → Prop} {R : β → σ → Prop} {E E' : ε → σ → Prop} {N N' : π → Prop} {s : σ}

theorem wp_mono {x : Proc ε π σ α} (h : x.wp Q E N s) (hQ : ∀ a s', Q a s' → Q' a s')
    (hE : ∀ e s', E e s' → E' e s') (hN : ∀ p, N p → N' p) : x.wp Q' E' N' s := by
  unfold wp at h ⊢
  rcases hx : x s with ⟨a, s'⟩ | ⟨e, s'⟩ | p
  · rw [hx] at h
    exact hQ a s' h
  · rw [hx] at h
    exact hE e s' h
  · rw [hx] at h
    exact hN p h

theorem wp_state {x : Proc ε π σ α} {I : σ → Prop} {s' : σ}
    (h : x.wp (fun _ => I) (fun _ => I) N s) (hs : (x s).state? = some s') : I s' := by
  unfold wp at h
  rcases hx : x s with ⟨a, t⟩ | ⟨e, t⟩ | p
  · rw [hx] at h hs
    obtain rfl := Option.some.inj hs
    exact h
  · rw [hx] at h hs
    obtain rfl := Option.some.inj hs
    exact h
  · rw [hx] at hs
    cases hs

theorem wp_panic {x : Proc ε π σ α} {p : π} (h : x.wp Q E N s) (hs : (x s).panic? = some p) :
    N p := by
  unfold wp at h
  rcases hx : x s with ⟨a, t⟩ | ⟨e, t⟩ | q
  · rw [hx] at hs
    cases hs
  · rw [hx] at hs
    cases hs
  · rw [hx] at h hs
    obtain rfl := Option.some.inj hs
    exact h

@[simp] theorem wp_pure (a : α) : (pure a : Proc ε π σ α).wp Q E N s ↔ Q a s := Iff.rfl

@[simp] theorem wp_bind (x : Proc ε π σ α) (f : α → Proc ε π σ β) :
    (x >>= f).wp R E N s ↔ x.wp (fun a s' => (f a).wp R E N s') E N s := by
  unfold wp
  rw [bind_run]
  rcases x s with ⟨a, s'⟩ | ⟨e, s'⟩ | p
  · exact Iff.rfl
  · exact Iff.rfl
  · exact Iff.rfl

@[simp] theorem wp_get {Q : σ → σ → Prop} : (get : Proc ε π σ σ).wp Q E N s ↔ Q s s := Iff.rfl

@[simp] theorem wp_modify {Q : Unit → σ → Prop} (f : σ → σ) :
    (modify f : Proc ε π σ Unit).wp Q E N s ↔ Q () (f s) := Iff.rfl

@[simp] theorem wp_throw (e : ε) : (throw e : Proc ε π σ α).wp Q E N s ↔ E e s := Iff.rfl

@[simp] theorem wp_crash (p : π) : (crash p : Proc ε π σ α).wp Q E N s ↔ N p := Iff.rfl

theorem wp_lift (x : Except π α) :
    (lift x : Proc ε π σ α).wp Q E N s ↔ (∀ a, x = .ok a → Q a s) ∧ ∀ p, x = .error p → N p := by
  rcases x with p | a
  · simp [wp, lift]
  · simp [wp, lift]

@[simp] theorem wp_ignore {Q : Unit → σ → Prop} (x : Proc ε π σ α) :
    x.ignore.wp Q E N s ↔ x.wp (fun _ s' => Q () s') (fun _ s' => Q () s') N s := by
  unfold wp ignore
  rcases x s with ⟨a, s'⟩ | ⟨e, s'⟩ | p
  · exact Iff.rfl
  · exact Iff.rfl
  · exact Iff.rfl

@[simp] theorem wp_attempt {Q : Except ε α → σ → Prop} (x : Proc ε π σ α) :
    x.attempt.wp Q E N s ↔
      x.wp (fun a s' => Q (.ok a) s') (fun e s' => Q (.error e) s') N s := by
  unfold wp attempt
  rcases x s with ⟨a, s'⟩ | ⟨e, s'⟩ | p
  · exact Iff.rfl
  · exact Iff.rfl
  · exact Iff.rfl

theorem wp_and {x : Proc ε π σ α} (h : x.wp Q E N s) (h' : x.wp Q' E' N' s) :
    x.wp (fun a s' => Q a s' ∧ Q' a s') (fun e s' => E e s' ∧ E' e s') (fun p => N p ∧ N' p) s := by
  unfold wp at h h' ⊢
  rcases hx : x s with ⟨a, s'⟩ | ⟨e, s'⟩ | p
  · rw [hx] at h h'
    exact ⟨h, h'⟩
  · rw [hx] at h h'
    exact ⟨h, h'⟩
  · rw [hx] at h h'
    exact ⟨h, h'⟩

/-- The loop rule: `I l` is what holds when the elements of `l` are still to come. -/
theorem wp_each {f : α → Proc ε π σ Unit} {I : List α → σ → Prop}
    (hstep : ∀ a l s, I (a :: l) s → (f a).wp (fun _ s' => I l s') E N s) :
    ∀ l s, I l s → (each f l).wp (fun _ s' => I [] s') E N s := by
  intro l
  induction l with
  | nil => exact fun s h => h
  | cons a l ih =>
    intro s h
    rw [each, wp_bind]
    exact wp_mono (hstep a l s h) (fun _ s' hs' => ih s' hs') (fun _ _ he => he) fun _ hp => hp

end Wp

/-! ## Moves -/

/-- Every surviving run of `x` is an `R`-step from its start, and every panic
satisfies `N`. -/
def Moves (R : σ → σ → Prop) (N : π → Prop) (x : Proc ε π σ α) : Prop :=
  ∀ s, x.wp (fun _ s' => R s s') (fun _ s' => R s s') N s

namespace Moves

variable {R : σ → σ → Prop} {N : π → Prop} {x : Proc ε π σ α} {f : α → Proc ε π σ β}

/-- The states before and after a surviving run are related. -/
theorem state {s s' : σ} (h : Moves R N x) (hs : (x s).state? = some s') : R s s' :=
  wp_state (h s) hs

theorem mono {R' : σ → σ → Prop} {N' : π → Prop} (h : Moves R N x)
    (hR : ∀ s s', R s s' → R' s s') (hN : ∀ p, N p → N' p) : Moves R' N' x :=
  fun s => wp_mono (h s) (fun _ s' => hR s s') (fun _ s' => hR s s') hN

theorem modify {g : σ → σ} (h : ∀ s, R s (g s)) :
    Moves R N (Proc.modify g : Proc ε π σ Unit) := fun s => h s

theorem crash {p : π} (h : N p) : Moves R N (Proc.crash p : Proc ε π σ α) := fun _ => h

/-- A body that starts by reading the state may use what it read. -/
theorem get_bind {g : σ → Proc ε π σ β}
    (h : ∀ s, (g s).wp (fun _ s' => R s s') (fun _ s' => R s s') N s) :
    Moves R N (Proc.get >>= g) := fun s => h s

section Preorder

variable [IsPreorder σ R]

theorem pure (a : α) : Moves R N (Pure.pure a : Proc ε π σ α) := fun s => Std.Refl.refl s

theorem get : Moves R N (Proc.get : Proc ε π σ σ) := fun s => Std.Refl.refl s

theorem throw (e : ε) : Moves R N (Proc.throw e : Proc ε π σ α) := fun s => Std.Refl.refl s

theorem lift {y : Except π α} (h : ∀ p, y = .error p → N p) :
    Moves R N (Proc.lift y : Proc ε π σ α) :=
  fun s => (wp_lift y).mpr ⟨fun _ _ => Std.Refl.refl s, h⟩

end Preorder

theorem ignore (h : Moves R N x) : Moves R N x.ignore := fun s => (wp_ignore x).mpr (h s)

theorem attempt (h : Moves R N x) : Moves R N x.attempt := fun s => (wp_attempt x).mpr (h s)

section Preorder

variable [IsPreorder σ R]

theorem bind (hx : Moves R N x) (hf : ∀ a, Moves R N (f a)) : Moves R N (x >>= f) := by
  intro s
  rw [wp_bind]
  refine wp_mono (hx s) (fun a s₁ h₁ => ?_) (fun _ _ h => h) fun _ h => h
  exact wp_mono (hf a s₁) (fun _ _ h₂ => IsTrans.trans _ _ _ h₁ h₂) (fun _ _ h₂ => IsTrans.trans _ _ _ h₁ h₂)
    fun _ h => h

theorem each {g : α → Proc ε π σ Unit} {l : List α} (h : ∀ a ∈ l, Moves R N (g a)) :
    Moves R N (Proc.each g l) := by
  induction l with
  | nil => exact pure ()
  | cons a l ih =>
    refine bind (h a (List.mem_cons_self ..)) fun _ => ?_
    exact ih fun b hb => h b (List.mem_cons_of_mem _ hb)

end Preorder

end Moves

/-! ## Procedures without errors -/

/-- The procedure never returns an error. -/
def Infallible (x : Proc ε π σ α) : Prop :=
  ∀ s, x.wp (fun _ _ => True) (fun _ _ => False) (fun _ => True) s

namespace Infallible

variable {x : Proc ε π σ α} {f : α → Proc ε π σ β}

theorem pure (a : α) : Infallible (Pure.pure a : Proc ε π σ α) := fun _ => trivial

theorem get : Infallible (Proc.get : Proc ε π σ σ) := fun _ => trivial

theorem modify (g : σ → σ) : Infallible (Proc.modify g : Proc ε π σ Unit) := fun _ => trivial

theorem crash (p : π) : Infallible (Proc.crash p : Proc ε π σ α) := fun _ => trivial

theorem bind (hx : Infallible x) (hf : ∀ a, Infallible (f a)) : Infallible (x >>= f) := by
  intro s
  rw [wp_bind]
  exact wp_mono (hx s) (fun a s' _ => hf a s') (fun _ _ h => h) fun _ h => h

/-- What a procedure does, without the case of an error. -/
theorem wp_of_moves {R : σ → σ → Prop} {N : π → Prop} (hx : Infallible x) (h : Moves R N x) (s : σ) :
    x.wp (fun _ s' => R s s') (fun _ _ => False) N s :=
  wp_mono (wp_and (h s) (hx s)) (fun _ _ h => h.1) (fun _ _ h => h.2) fun _ h => h.1

end Infallible

/-! ## Moves under a precondition -/

/-- `Moves` from the states with `P`. -/
def MovesFrom (P : σ → Prop) (R : σ → σ → Prop) (N : π → Prop) (x : Proc ε π σ α) : Prop :=
  ∀ s, P s → x.wp (fun _ s' => R s s') (fun _ s' => R s s') N s

theorem Moves.movesFrom {P : σ → Prop} {R : σ → σ → Prop} {N : π → Prop} {x : Proc ε π σ α}
    (h : Moves R N x) : MovesFrom P R N x := fun s _ => h s

namespace MovesFrom

variable {P : σ → Prop} {R : σ → σ → Prop} {N : π → Prop} {x : Proc ε π σ α}
  {f : α → Proc ε π σ β}

theorem mono {P' : σ → Prop} {R' : σ → σ → Prop} {N' : π → Prop} (h : MovesFrom P R N x)
    (hP : ∀ s, P' s → P s) (hR : ∀ s s', R s s' → R' s s') (hN : ∀ p, N p → N' p) :
    MovesFrom P' R' N' x :=
  fun s hs => wp_mono (h s (hP s hs)) (fun _ s' => hR s s') (fun _ s' => hR s s') hN

theorem ignore (h : MovesFrom P R N x) : MovesFrom P R N x.ignore :=
  fun s hs => (wp_ignore x).mpr (h s hs)

theorem attempt (h : MovesFrom P R N x) : MovesFrom P R N x.attempt :=
  fun s hs => (wp_attempt x).mpr (h s hs)

variable [IsPreorder σ R]

/-- From one state on: the rest of a body moves on from where its start ended. -/
theorem wp_bind_of {s : σ} (hx : x.wp (fun a s' => R s s' ∧
      (f a).wp (fun _ t => R s' t) (fun _ t => R s' t) N s') (fun _ s' => R s s') N s) :
    (x >>= f).wp (fun _ s' => R s s') (fun _ s' => R s s') N s := by
  rw [wp_bind]
  refine wp_mono hx (fun a s₁ h₁ => ?_) (fun _ _ h => h) fun _ h => h
  exact wp_mono h₁.2 (fun _ _ h₂ => IsTrans.trans _ _ _ h₁.1 h₂)
    (fun _ _ h₂ => IsTrans.trans _ _ _ h₁.1 h₂) fun _ h => h

theorem bind (hP : ∀ s s', P s → R s s' → P s') (hx : MovesFrom P R N x)
    (hf : ∀ a, MovesFrom P R N (f a)) : MovesFrom P R N (x >>= f) := by
  intro s hs
  refine wp_bind_of (wp_mono (hx s hs) (fun a s₁ h₁ => ?_) (fun _ _ h => h) fun _ h => h)
  exact ⟨h₁, hf a s₁ (hP s s₁ hs h₁)⟩

theorem each (hP : ∀ s s', P s → R s s' → P s') {g : α → Proc ε π σ Unit} {l : List α}
    (h : ∀ a ∈ l, MovesFrom P R N (g a)) : MovesFrom P R N (Proc.each g l) := by
  induction l with
  | nil => exact (Moves.pure ()).movesFrom
  | cons a l ih =>
    refine bind hP (h a (List.mem_cons_self ..)) fun _ => ?_
    exact ih fun b hb => h b (List.mem_cons_of_mem _ hb)

end MovesFrom

instance {τ : Type} (f : σ → τ) : IsPreorder σ fun s s' => f s' = f s where
  refl _ := rfl
  trans _ _ _ h₁ h₂ := h₂.trans h₁


/-- The projection `f` of the state is the same after every surviving run. -/
abbrev Fixes {τ : Type} (f : σ → τ) (x : Proc ε π σ α) : Prop :=
  Moves (fun s s' => f s' = f s) (fun _ => True) x

end Proc
