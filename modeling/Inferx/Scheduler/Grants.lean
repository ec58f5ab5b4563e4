import Inferx.Scheduler.Handlers

/-!
# What a call hands out

A pod is handed out by a lease request that finds it idle, or by a report that says
that it is ready while no gateway works with it. A call hands out one pod at most, and
when the call is over the gateway that got the pod works with it.
-/

namespace Inferx

open Proc SchedulerHandler

/-- The worker state of the pod with a key. -/
def SchedulerHandler.podState (s : SchedulerHandler) (k : String) : Option WorkerPodState :=
  (s.slot k).entry.map fun e => e.2.state

theorem podState_of_tracked {s : SchedulerHandler} {k : String} {w : WorkerPod}
    (hw : s.pods[k]? = some w) : s.podState k = some (s.stateOf w) := by
  simp only [podState, slot_of_tracked hw, Option.map_some]
  rfl

/-- From which states can a handler hand the pod out? -/
def Handler.Offers (s : SchedulerHandler) : Handler → String → Prop
  | .msg (.leaseWorker _ _), k => s.podState k = some .idle
  | .event (.podModified pod), k =>
    k = pod.podKey ∧ pod.state = .ready ∧ ∃ w, s.pods[k]? = some w ∧ ∀ g, s.stateOf w ≠ .working g
  | _, _ => False

/-- One pod is handed out at most. -/
def HandsOutOne (P : String → Prop) (t : SchedulerHandler) : Prop :=
  t.grants = [] ∨ ∃ k g, t.grants = [(k, g)] ∧ P k ∧ t.podState k = some (.working g)

/-- The act hands the pod out. -/
def Act.IsGrant : Act → Prop
  | .lease _ _ | .granted _ _ _ => True
  | _ => False

theorem MakesRoom.not_isGrant {act : Act} (h : MakesRoom act) : ¬ act.IsGrant := by
  rcases h with rfl | rfl
  · exact id
  · exact id

theorem Prewarms.not_isGrant {act : Act} (h : Prewarms act) : ¬ act.IsGrant := by
  rcases h with h | rfl
  · exact h.not_isGrant
  · exact id

/-- The act may make the pod active. -/
def Act.Starts : Act → Prop
  | .lease _ _ | .connect _ | .resume _ | .added _ | .rebuilt _ | .granted _ _ _ => True
  | _ => False

theorem MakesRoom.not_starts {act : Act} (h : MakesRoom act) : ¬ act.Starts := by
  rcases h with rfl | rfl
  · exact id
  · exact id

/-- Handlers that may make pods active for nobody: a gateway takes its pods over, pods are
resumed ahead of time, or a pod is reported that is being resumed. -/
def Handler.Starts : Handler → Prop
  | .msg (.connectScheduler _ _) | .event (.funcAdded _) | .event (.funcModified _ _)
  | .event (.podAdded _) | .warmup | .refresh => True
  | _ => False

/-- Lease requests and further reports. -/
def Handler.Uses : Handler → Prop
  | .msg (.leaseWorker _ _) | .event (.podModified _) => True
  | _ => False

/-- Acts that hand nothing out. -/
theorem grants_nil {A : String → Act → Prop} {s t : SchedulerHandler} (hs : s.grants = [])
    (hgrants : ∀ p ∈ t.grants, p ∈ s.grants ∨ HandsOut A p)
    (hA : ∀ k act, A k act → ¬ act.IsGrant) : t.grants = [] := by
  refine List.eq_nil_iff_forall_not_mem.mpr fun p hp => ?_
  rcases hgrants p hp with h | ⟨x, h⟩ | ⟨pod, x, h⟩
  · rw [hs] at h
    cases h
  · exact hA _ _ h trivial
  · exact hA _ _ h trivial

theorem Lives.grants_nil {A : String → Act → Prop} {s t : SchedulerHandler} (h : Lives A s t)
    (hs : s.grants = []) (hA : ∀ k act, A k act → ¬ act.IsGrant) : t.grants = [] :=
  Inferx.grants_nil hs h.grants hA

theorem grants_of_life {s t : SchedulerHandler} (h : t.life = s.life) : t.grants = s.grants :=
  congrArg (fun l => l.2.1) h

/-! ## Leases -/

section Leases

variable {env : Env} {req : LeaseWorkerReq} {tx : ℕ} {s : SchedulerHandler}

theorem leaseIdle_grants {w : WorkerPod} (hs : s.grants = []) (hw : s.pods[w.pod.podKey]? = some w)
    (hstate : s.stateOf w = .idle) :
    (leaseIdle env req tx w).wp (fun _ t => HandsOutOne (fun k => s.podState k = some .idle) t)
      (fun _ t => HandsOutOne (fun k => s.podState k = some .idle) t) (fun _ => True) s := by
  simp only [leaseIdle]
  rw [wp_bind, wp_setWorking (Or.inl hstate), wp_bind, wp_modify, wp_bind]
  by_cases hidle : w.pod.podKey ∈ s.idlePods
  · refine (wp_popIdleChecked (s := (s.setState w _).setConsumer w req.consumer) hidle).mpr ?_
    refine wp_mono (answerLease_spec env req tx w.pod _) (fun _ t ht => ?_) (fun _ t ht => ?_)
      fun _ _ => trivial
    · obtain ⟨-, hslot, hgrants⟩ := ht
      refine Or.inr ⟨w.pod.podKey, req.gatewayId, hgrants.trans (congrArg (· ++ _) hs), ?_, ?_⟩
      · exact (podState_of_tracked hw).trans (congrArg some hstate)
      · simp only [podState, hslot, slot_popIdle_self]
        rw [setConsumer_setState, slot_setCell_self hw]
        rfl
    · rw [ht]
      exact Or.inl hs
  · refine (wp_popIdleChecked_missing (s := (s.setState w _).setConsumer w req.consumer)
      hidle).mpr trivial

theorem leaseResuming_grants (hs : s.index.Sound) (hout : s.grants = []) :
    (leaseResuming env req tx req.funcKey).wp (fun _ t => t.grants = []) (fun _ t => t.grants = [])
      (fun _ => True) s := by
  simp only [leaseResuming]
  rw [wp_bind, wp_attempt]
  refine wp_mono (resumePod_spec env req.funcKey (some req.effectiveTenant) hs) (fun _ s₁ h₁ => ?_)
    (fun _ s₁ h₁ => ?_) fun _ _ => trivial
  · obtain ⟨w, hw⟩ := h₁
    have hnone : s₁.grants = [] := hw.lives.grants_nil hout fun k act hact => by
      rcases hact with hact | ⟨-, rfl⟩
      · exact hact.not_isGrant
      · exact id
    refine wp_mono (quiet_pushLeaseWorkerReq env req.funcKey req tx s₁) (fun _ t ht => ?_)
      (fun _ t ht => ?_) fun _ _ => trivial
    · exact (grants_of_life ht).trans hnone
    · exact (grants_of_life ht).trans hnone
  · have hnone : s₁.grants = [] := h₁.grants_nil hout fun k act hact => by
      rw [hact]
      exact id
    refine wp_mono (quiet_refuseLease env req tx _ s₁) (fun _ t ht => ?_) (fun _ t ht => ?_)
      fun _ _ => trivial
    · exact (grants_of_life ht).trans hnone
    · exact (grants_of_life ht).trans hnone

/-- **A lease request** hands out a pod that was idle, or none. -/
theorem processLeaseWorkerReq_grants (hs : s.index.Sound) (hout : s.grants = []) :
    (processLeaseWorkerReq env req tx).wp
      (fun _ t => HandsOutOne (fun k => s.podState k = some .idle) t)
      (fun _ t => HandsOutOne (fun k => s.podState k = some .idle) t) (fun _ => True) s := by
  refine wp_processLeaseWorkerReq hs trivial (fun error => ?_) (fun fs w _ _ hw _ _ hstate => ?_)
    fun fs _ _ => ?_
  · exact wp_mono (quiet_refuseLease env req tx error s)
      (fun _ t ht => Or.inl ((grants_of_life ht).trans hout))
      (fun _ t ht => Or.inl ((grants_of_life ht).trans hout)) fun _ _ => trivial
  · exact leaseIdle_grants hout hw hstate
  · exact wp_mono (leaseResuming_grants hs hout) (fun _ _ h => Or.inl h) (fun _ _ h => Or.inl h)
      fun _ h => h

end Leases

/-! ## Reports -/

/-- **A report** hands out its own pod if it is ready and nobody works with it, or none. -/
theorem updatePod_grants {env : Env} {pod : FuncPod} {s : SchedulerHandler} (hs : s.index.Keyed)
    (hout : s.grants = []) :
    (updatePod env pod).wp
      (fun _ t => HandsOutOne (Handler.Offers s (.event (.podModified pod))) t)
      (fun _ t => HandsOutOne (Handler.Offers s (.event (.podModified pod))) t)
      (fun _ => True) s := by
  refine wp_updatePod hs (fun _ => trivial) (fun _ _ => trivial) fun old s₂ hfiled => ?_
  refine wp_mono (updatePodInFunc_spec env (s.nextPod pod) (hfiled.keyed hs) hfiled.get)
    (fun left s₃ h₃ => ?_) (fun _ s₃ h₃ => ?_) fun _ _ => trivial
  · rcases h₃ with ⟨rfl, hlife₃, -⟩ | ⟨hready, hidle, t, hlife, hserved⟩
    · refine Or.inl ?_
      exact (life_eq.mp hlife₃).2.1.trans (hfiled.grants.trans hout)
    · obtain ⟨-, hgrants, hslot⟩ := life_eq.mp hlife
      rw [hfiled.grants, hout] at hgrants
      rcases hserved with ⟨rfl, -, hlife₃⟩ | ⟨rfl, q, -, hlife₃⟩
      · refine Or.inl ?_
        exact (life_eq.mp hlife₃).2.1.trans hgrants
      · obtain ⟨-, hgrants₃, hslot₃⟩ := life_eq.mp hlife₃
        rw [hgrants, List.nil_append] at hgrants₃
        refine Or.inr ⟨pod.podKey, q.req.gatewayId, hgrants₃,
          ⟨rfl, hready, old, hfiled.replaces, fun g hg => ?_⟩, ?_⟩
        · -- a pod that a gateway works with is not idle after the report
          rw [hfiled.stateOf, WorkerCell.rebuild_working hg] at hidle
          exact WorkerPodState.noConfusion (hg.symm.trans hidle)
        · simp only [podState, Bool.false_eq_true, if_false]
          rw [hslot₃]
          show Option.map _ (Function.update t.slot pod.podKey _ pod.podKey).entry = _
          rw [Function.update_self]
          rfl
  · refine Or.inl ?_
    exact (life_eq.mp h₃.1).2.1.trans (hfiled.grants.trans hout)

/-! ## Calls -/

/-- No other handler hands anything out, and few make a pod active. -/
theorem Handler.acts_other {env : Env} {s : SchedulerHandler} {h : Handler} (huses : ¬ h.Uses)
    (k : String) (act : Act) (hact : h.acts env s k act) : ¬ act.IsGrant ∧ (act.Starts → h.Starts) := by
  have hroom : MakesRoom act → ¬ act.IsGrant ∧ (act.Starts → h.Starts) := fun hact =>
    ⟨hact.not_isGrant, fun hstarts => absurd hstarts hact.not_starts⟩
  cases h with
  | msg m =>
    cases m with
    | connectScheduler req tx =>
      rcases hact with hact | ⟨rfl, -⟩
      · exact ⟨hact.not_isGrant, fun _ => trivial⟩
      · exact ⟨id, fun _ => trivial⟩
    | leaseWorker req tx => exact absurd trivial huses
    | returnWorker req tx =>
      obtain ⟨-, rfl⟩ := hact
      split
      next => exact ⟨id, False.elim⟩
      next => exact ⟨id, False.elim⟩
    | killPod req tx =>
      obtain ⟨-, w, -, ⟨rfl, -⟩ | ⟨rfl, -⟩ | ⟨rfl, -⟩⟩ := hact
      · exact ⟨id, False.elim⟩
      · exact ⟨id, False.elim⟩
      · exact ⟨id, False.elim⟩
    | cleanupDuplicateSnapshot rpc =>
      obtain ⟨rfl, -⟩ := hact
      exact ⟨id, False.elim⟩
    | resumeWorkerComplete rpc result =>
      obtain ⟨-, ⟨-, rfl⟩ | ⟨rfl, -⟩⟩ := hact
      · exact ⟨id, False.elim⟩
      · exact ⟨id, False.elim⟩
    | startWorkerComplete rpc result =>
      obtain ⟨-, rfl, -⟩ := hact
      exact ⟨id, False.elim⟩
    | _ => exact hact.elim
  | event e =>
    cases e with
    | funcAdded func => exact ⟨Prewarms.not_isGrant hact, fun _ => trivial⟩
    | funcModified oldspec spec =>
      rcases hact with hact | ⟨rfl, -⟩
      · exact ⟨hact.not_isGrant, fun _ => trivial⟩
      · exact ⟨id, fun _ => trivial⟩
    | funcDeleted spec =>
      obtain ⟨rfl, -⟩ := hact
      exact ⟨id, False.elim⟩
    | nodeAdded node =>
      obtain ⟨-, rfl, -⟩ := hact
      exact ⟨id, False.elim⟩
    | nodeModified node =>
      obtain ⟨-, rfl | rfl | rfl, -⟩ := hact
      · exact ⟨id, False.elim⟩
      · exact ⟨id, False.elim⟩
      · exact ⟨id, False.elim⟩
    | podAdded pod =>
      rcases hact with ⟨-, rfl, -⟩ | ⟨-, rfl⟩
      · exact ⟨id, fun _ => trivial⟩
      · exact ⟨id, fun _ => trivial⟩
    | podModified pod => exact absurd trivial huses
    | podDeleted pod =>
      obtain ⟨-, rfl⟩ := hact
      exact ⟨id, False.elim⟩
    | snapshotAdded snapshot =>
      obtain ⟨-, rfl, -⟩ := hact
      exact ⟨id, False.elim⟩
    | _ => exact hact.elim
  | task => exact hroom hact
  | warmup => exact ⟨Prewarms.not_isGrant hact, fun _ => trivial⟩
  | refresh => exact ⟨Prewarms.not_isGrant hact, fun _ => trivial⟩
  | cleanPods =>
    obtain ⟨rfl, -⟩ := hact
    exact ⟨id, False.elim⟩
  | gatewayTimeout =>
    obtain ⟨g, -, rfl⟩ := hact
    exact ⟨id, False.elim⟩
  | _ => exact hact.elim

/-- **What a call hands out**: one pod at most, that the handler found free, and that the
gateway works with afterwards. -/
theorem SchedulerHandler.next_grantsOne {s t : SchedulerHandler} {c : Call} (hs : s.index.Sound)
    (hok : c.2.IndexOk s) (h : s.next c = some t) : HandsOutOne (c.2.Offers s) t := by
  have hgrants := (next_evolves hs hok h).grants
  obtain ⟨env, hd⟩ := c
  by_cases huses : hd.Uses
  · cases hd with
    | msg m =>
      cases m with
      | leaseWorker req tx => exact wp_state (processLeaseWorkerReq_grants (s := { s with out := [] }) hs rfl) h
      | _ => exact huses.elim
    | event e =>
      cases e with
      | podModified pod => exact wp_state (updatePod_grants (s := { s with out := [] }) hs.toKeyed rfl) h
      | _ => exact huses.elim
    | _ => exact huses.elim
  · exact Or.inl (grants_nil (s := { s with out := [] }) rfl hgrants fun k act hact =>
      (Handler.acts_other huses k act hact).1)

end Inferx
