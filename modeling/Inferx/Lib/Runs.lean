import Mathlib.Logic.Basic

/-!
# Runs

The runs of a deterministic system that takes one input at a time: `next s i`
is the state after input `i`, or `none` when the system stops. `Reach` is
reachability by inputs that are admitted in the state they arrive in, and
`Reach.invariant` is the rule all safety results go through. `exec` runs a list
of inputs and checks on the way that each is admitted, so that a concrete run
can be evaluated and then used as a derivation (`Reach.of_exec`).
-/

variable {σ ι : Type}

/-- The states reachable from `init` by inputs with `ok`. -/
inductive Reach (next : σ → ι → Option σ) (init : σ → Prop) (ok : σ → ι → Prop) : σ → Prop where
  /-- where a run starts -/
  | init {s : σ} : init s → Reach next init ok s
  /-- one more input -/
  | step {s s' : σ} {c : ι} : Reach next init ok s → ok s c → next s c = some s' →
      Reach next init ok s'

namespace Reach

variable {next : σ → ι → Option σ} {init : σ → Prop} {ok ok' : σ → ι → Prop}

/-- **The invariant rule.** What holds at the start and is kept by every
admitted input holds in every reachable state. -/
theorem invariant {I : σ → Prop} (hinit : ∀ s, init s → I s)
    (hstep : ∀ s i s', I s → ok s i → next s i = some s' → I s') {s : σ}
    (h : Reach next init ok s) : I s := by
  induction h with
  | init h => exact hinit _ h
  | step _ hok hnext ih => exact hstep _ _ _ ih hok hnext

/-- Admitting more inputs reaches more states. -/
theorem mono (hok : ∀ s i, ok s i → ok' s i) {s : σ} (h : Reach next init ok s) :
    Reach next init ok' s := by
  induction h with
  | init h => exact .init h
  | step _ hi hnext ih => exact .step ih (hok _ _ hi) hnext

end Reach

section Exec

variable (next : σ → ι → Option σ) (ok : σ → ι → Prop) [∀ s i, Decidable (ok s i)]

/-- Run a list of inputs, each of which has to be admitted. -/
def exec (s : σ) : List ι → Option σ
  | [] => some s
  | i :: l =>
    if ok s i then
      match next s i with
      | none => none
      | some s' => exec s' l
    else none

/-- Running a list of inputs reaches its last state. -/
theorem Reach.of_exec {init : σ → Prop} {l : List ι} {s s' : σ} (hs : Reach next init ok s)
    (h : exec next ok s l = some s') : Reach next init ok s' := by
  induction l generalizing s with
  | nil =>
    obtain rfl := Option.some.inj h
    exact hs
  | cons i l ih =>
    unfold exec at h
    split at h
    next hok =>
      rcases hnext : next s i with _ | t
      · rw [hnext] at h
        cases h
      · rw [hnext] at h
        exact ih (.step hs hok hnext) h
    next => cases h

variable {next ok}

/-- A run whose inputs are admitted is a run when more are. -/
theorem exec_mono {ok' : σ → ι → Prop} [∀ s i, Decidable (ok' s i)] (hok : ∀ s i, ok s i → ok' s i)
    {l : List ι} {s s' : σ} (h : exec next ok s l = some s') : exec next ok' s l = some s' := by
  induction l generalizing s with
  | nil => exact h
  | cons i l ih =>
    unfold exec at h ⊢
    split at h
    next hi =>
      rw [if_pos (hok s i hi)]
      rcases hnext : next s i with _ | t
      · rw [hnext] at h
        cases h
      · rw [hnext] at h
        exact ih h
    next => cases h

end Exec

/-- The state after one more input is the next one, where the run does not stop. -/
theorem next_getD_foldlM {f : σ → ι → Option σ} {s d : σ} {l : List ι} {i : ι}
    (h : ((l ++ [i]).foldlM f s).isSome) :
    f ((l.foldlM f s).getD d) i = some (((l ++ [i]).foldlM f s).getD d) := by
  have hlast : (l ++ [i]).foldlM f s = (l.foldlM f s).bind (f · i) := by
    simp [List.foldlM_append]
  rcases hl : l.foldlM f s with _ | t
  · rw [hlast, hl] at h
    cases h
  · rw [hlast, hl, Option.bind_some] at h
    obtain ⟨t', ht'⟩ := Option.isSome_iff_exists.mp h
    rw [hlast, hl, Option.bind_some, Option.getD_some, ht', Option.getD_some]
