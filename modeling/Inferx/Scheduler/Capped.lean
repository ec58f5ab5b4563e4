import Inferx.Lib.Totals
import Inferx.Scheduler.Grants
import Inferx.Scheduler.IdlePool
import Inferx.Scheduler.Resolve
import Inferx.Scheduler.Rollback

/-!
# The GPU limit of a tenant

The limit is checked when a lease request arrives, against the pods that the scheduler knows to
be resuming or working for the tenant. `Using` follows beside the scheduler on whose behalf a pod
has been resumed or handed out. As long as a report of a pod leaves room for it, and the tenant
it is used for is the one the scheduler has recorded, the checks keep the tenant within its
limit.
-/

namespace Inferx

open Proc SchedulerHandler

/-! ## Active pods -/

/-- Does the pod count against a limit? -/
def WorkerPodState.isActive : WorkerPodState → Bool
  | .working _ | .resuming => true
  | _ => false

/-- Does a gateway work with it? -/
def WorkerPodState.isWorking : WorkerPodState → Bool
  | .working _ => true
  | _ => false

theorem isWorking_iff {x : WorkerPodState} : x.isWorking = true ↔ ∃ g, x = .working g := by
  cases x <;> simp [WorkerPodState.isWorking]

theorem isWorking_eq_false_iff {x : WorkerPodState} : x.isWorking = false ↔ ∀ g, x ≠ .working g := by
  cases x <;> simp [WorkerPodState.isWorking]

/-- A pod that is reported is active when it is being resumed. -/
theorem WorkerCell.new_active {state : PodState} (h : (WorkerCell.new state).state.isActive = true) :
    state = .resuming ∧ (WorkerCell.new state).consumerTenant = none := by
  cases state <;> simp [WorkerCell.new, WorkerPodState.isActive] at h ⊢

theorem WorkerCell.new_works (state : PodState) : (WorkerCell.new state).state.isWorking = false := by
  cases state <;> rfl

/-- What is active after the act was active before, as it is. -/
theorem Slot.Step.active {act : Act} {a b : Slot} (h : Slot.Step act a b) (hact : ¬ act.Starts)
    {pod : FuncPod} {c : WorkerCell} (hb : b.entry = some (pod, c)) (hc : c.state.isActive = true) :
    a.entry = some (pod, c) := by
  cases h with
  | lease => exact absurd trivial hact
  | connect => exact absurd trivial hact
  | resume => exact absurd trivial hact
  | added => exact absurd trivial hact
  | rebuilt => exact absurd trivial hact
  | granted => exact absurd trivial hact
  | relist => exact hb
  | dropMissing => cases hb
  | removed => cases hb
  | dropped => cases hb
  | _ =>
    obtain ⟨rfl, rfl⟩ := Prod.mk.inj (Option.some.inj hb)
    cases hc

/-- What is active after the path was active before, as it is. -/
def Slot.Wanes (a b : Slot) : Prop :=
  ∀ pod c, b.entry = some (pod, c) → c.state.isActive = true → a.entry = some (pod, c)

theorem Path.wanes {A : Act → Prop} {a b : Slot} (h : Path A a b) (hA : ∀ act, A act → ¬ act.Starts) :
    a.Wanes b := by
  refine h.invariant (I := fun x => a.Wanes x) (fun act x y hact hstep hx pod c hy hc => ?_)
    fun _ _ h _ => h
  exact hx pod c (hstep.active (hA act hact) hy hc) hc

/-! ## The pod a lease request takes -/

/-- The GPUs a pod has asked for. -/
def FuncPod.gpuCount (pod : FuncPod) : ℕ := pod.reqResources.gpu.gpuCount.toNat

/-- The lease request has made the pod active and no other. -/
structure TakesPod (s t : SchedulerHandler) (req : LeaseWorkerReq) (fs : FuncStatus) (w : WorkerPod) :
    Prop where
  /-- the pod was there -/
  tracked : s.pods[w.pod.podKey]? = some w
  /-- it was not active -/
  rests : (s.stateOf w).isActive = false
  /-- it is one of the function -/
  func : w.pod.funcKey = req.funcKey ∨ w.pod.funcKey = fs.func.id
  /-- the tenant is recorded -/
  recorded : ∀ pod c, (t.slot w.pod.podKey).entry = some (pod, c) → c.state.isActive = true →
    pod = w.pod ∧
      (c.consumerTenant = req.consumer ∨ c.consumerTenant = resumeConsumer (some req.effectiveTenant))
  /-- the other pods -/
  others : ∀ k, k ≠ w.pod.podKey → (s.slot k).Wanes (t.slot k)

/-- Nothing has become active, or one pod while there was room for it. -/
def LeaseWanes (s : SchedulerHandler) (req : LeaseWorkerReq) (t : SchedulerHandler) : Prop :=
  (∀ k, (s.slot k).Wanes (t.slot k)) ∨ ∃ fs w, s.funcs[req.funcKey]? = some fs ∧ TakesPod s t req fs w ∧
    s.exceedsGpuLimit req.effectiveTenant fs.func.runningResource.gpu.gpuCount = false

theorem Slot.Wanes.of_eq {a b : Slot} (h : b = a) : a.Wanes b := fun _ _ hb _ => h ▸ hb

theorem LeaseWanes.of_life {s t : SchedulerHandler} {req : LeaseWorkerReq} (h : t.life = s.life) :
    LeaseWanes s req t := Or.inl fun k => .of_eq (by rw [slot_of_life h])

section Leases

variable {env : Env} {req : LeaseWorkerReq} {tx : ℕ} {s t : SchedulerHandler} {fs : FuncStatus}
  {w : WorkerPod}

/-- A pod that is resumed is resumed for the tenant. -/
theorem Path.resumes {k : String} {consumer : Option String} {a b : Slot} {p : FuncPod} {x : WorkerCell}
    (h : Path (ResumeOf k consumer k) a b) (ha : a.entry = some (p, x)) (hrests : x.state.isActive = false) :
    ∀ pod c, b.entry = some (pod, c) → pod = p ∧
      (c.state.isActive = true → c.consumerTenant = consumer) := by
  refine h.invariant (I := fun y => ∀ pod c, y.entry = some (pod, c) → pod = p ∧
    (c.state.isActive = true → c.consumerTenant = consumer)) (fun act y z hact hstep hy pod c hc => ?_)
    fun pod c hc => ?_
  · rcases hact with (rfl | rfl) | ⟨-, rfl⟩
    · cases hstep
      obtain ⟨rfl, rfl⟩ := Prod.mk.inj (Option.some.inj hc)
      exact ⟨(hy _ _ rfl).1, nofun⟩
    · cases hstep
      cases hc
    · cases hstep
      obtain ⟨rfl, rfl⟩ := Prod.mk.inj (Option.some.inj hc)
      exact ⟨(hy _ _ rfl).1, fun _ => rfl⟩
  · obtain ⟨rfl, rfl⟩ := Prod.mk.inj (Option.some.inj (ha.symm.trans hc))
    exact ⟨rfl, fun h => absurd (h.symm.trans hrests) nofun⟩

/-- An active pod is not resumed. -/
theorem Path.wanes_of_active {k : String} {consumer : Option String} {a b : Slot} {p : FuncPod}
    {x : WorkerCell} (h : Path (ResumeOf k consumer k) a b) (ha : a.entry = some (p, x))
    (hactive : x.state.isActive = true) : a.Wanes b := by
  refine (h.invariant (I := fun y => (∀ pod c, y.entry = some (pod, c) → c.state ≠ .standby) ∧
    a.Wanes y) (fun act y z hact hstep hy => ?_) ⟨fun pod c hc hstate => ?_, fun _ _ h _ => h⟩).2
  · rcases hact with (rfl | rfl) | ⟨-, rfl⟩
    · cases hstep
      refine ⟨fun pod c hc => ?_, fun pod c hc hc' => ?_⟩
      · obtain ⟨-, rfl⟩ := Prod.mk.inj (Option.some.inj hc)
        exact nofun
      · obtain ⟨-, rfl⟩ := Prod.mk.inj (Option.some.inj hc)
        cases hc'
    · cases hstep
      refine ⟨fun pod c hc => ?_, fun pod c hc => ?_⟩
      · cases hc
      · cases hc
    · cases hstep with
      | resume hstandby => exact absurd hstandby (hy.1 _ _ rfl)
  · obtain ⟨-, rfl⟩ := Prod.mk.inj (Option.some.inj (ha.symm.trans hc))
    rw [hstate] at hactive
    cases hactive

theorem Resumed.leaseWanes (hs : s.index.Sound) (hfs : s.funcs[req.funcKey]? = some fs)
    (hroom : s.exceedsGpuLimit req.effectiveTenant fs.func.runningResource.gpu.gpuCount = false)
    (h : Resumed req.funcKey (resumeConsumer (some req.effectiveTenant)) s t w) : LeaseWanes s req t := by
  obtain ⟨key, fs', hkey, hfs', hmem⟩ := h.func
  -- the function of the request is among those the key may name
  have hown : req.funcKey ∈ s.funcKeysFrom req.funcKey :=
    mem_funcKeysFrom.mpr ⟨Std.ExtTreeMap.mem_keys.mpr
      (Std.ExtTreeMap.mem_iff_isSome_getElem?.mpr (by rw [hfs]; rfl)), List.prefix_refl _⟩
  obtain rfl : req.funcKey = key := by
    rw [hkey] at hown
    exact List.mem_singleton.mp hown
  obtain rfl := Option.some.inj (hfs.symm.trans hfs')
  obtain ⟨hw, hfunc⟩ := tracked_of_funcPods hs hmem
  have hentry : (s.slot w.pod.podKey).entry = some (w.pod, s.workers w.ref) := by
    rw [slot_of_tracked hw]
  have hothers : ∀ k, k ≠ w.pod.podKey → (s.slot k).Wanes (t.slot k) := fun k hk =>
    (h.lives.path k).wanes fun act hact => by
      rcases hact with hact | ⟨rfl, -⟩
      · exact hact.not_starts
      · exact absurd rfl hk
  by_cases hactive : (s.stateOf w).isActive = true
  · refine Or.inl fun k => ?_
    by_cases hk : k = w.pod.podKey
    · rw [hk]
      exact (h.lives.path w.pod.podKey).wanes_of_active hentry hactive
    · exact hothers k hk
  · have hrests : (s.stateOf w).isActive = false := Bool.eq_false_iff.mpr hactive
    refine Or.inr ⟨fs, w, hfs, ⟨hw, hrests, Or.inr hfunc, fun pod c hc hc' => ?_, hothers⟩, hroom⟩
    obtain ⟨hpod, hconsumer⟩ := (h.lives.path w.pod.podKey).resumes hentry hrests pod c hc
    exact ⟨hpod, Or.inr (hconsumer hc')⟩

theorem leaseIdle_wanes (hs : s.index.Sound) (hw : s.pods[w.pod.podKey]? = some w)
    (hfunc : w.pod.funcKey = req.funcKey) (hstate : s.stateOf w = .idle)
    (hfs : s.funcs[req.funcKey]? = some fs)
    (hroom : s.exceedsGpuLimit req.effectiveTenant fs.func.runningResource.gpu.gpuCount = false) :
    (leaseIdle env req tx w).wp (fun _ t => LeaseWanes s req t) (fun _ t => LeaseWanes s req t)
      (fun _ => True) s := by
  have htakes : ∀ t : SchedulerHandler, t.slot = (((s.setState w (.working req.gatewayId)).setConsumer w
      req.consumer).popIdle w.pod.podKey).slot → LeaseWanes s req t := by
    intro t hslot
    refine Or.inr ⟨fs, w, hfs, ⟨hw, ?_, Or.inl hfunc, fun pod c hc _ => ?_, fun k hk => ?_⟩, hroom⟩
    · rw [hstate]
      rfl
    · rw [hslot, slot_popIdle_self, setConsumer_setState, slot_setCell_self hw] at hc
      obtain ⟨rfl, rfl⟩ := Prod.mk.inj (Option.some.inj hc)
      exact ⟨rfl, Or.inl rfl⟩
    · refine .of_eq ?_
      rw [hslot, slot_popIdle_of_ne hk, setConsumer_setState]
      exact slot_setCell_of_ne hs.toKeyed hw hk
  simp only [leaseIdle]
  rw [wp_bind, wp_setWorking (Or.inl hstate), wp_bind, wp_modify, wp_bind]
  by_cases hidle : w.pod.podKey ∈ s.idlePods
  · refine (wp_popIdleChecked (s := (s.setState w _).setConsumer w req.consumer) hidle).mpr ?_
    refine wp_mono (answerLease_spec env req tx w.pod _) (fun _ t ht => ?_) (fun _ t ht => ?_)
      fun _ _ => trivial
    · exact htakes t ht.2.1
    · rw [ht]
      exact htakes _ rfl
  · refine (wp_popIdleChecked_missing (s := (s.setState w _).setConsumer w req.consumer)
      hidle).mpr trivial

/-- What has been sent before does not matter. -/
theorem LeaseWanes.of_quiet (h : LeaseWanes { s with out := [] } req t) : LeaseWanes s req t := by
  rcases h with h | ⟨fs, w, hfs, hw, hroom⟩
  · exact Or.inl h
  · exact Or.inr ⟨fs, w, hfs, ⟨hw.tracked, hw.rests, hw.func, hw.recorded, hw.others⟩, hroom⟩

/-- The tenant that is recorded is the one that asks. -/
theorem getD_recorded {consumer : Option String} {tenant : String}
    (hconsumer : consumer = req.consumer ∨ consumer = resumeConsumer (some req.effectiveTenant))
    (htenant : req.consumerTenant.isEmpty = true → tenant = req.tenant) :
    consumer.getD tenant = req.effectiveTenant := by
  by_cases hempty : req.consumerTenant.isEmpty = true
  · have heffective : req.effectiveTenant = tenant := by
      rw [LeaseWorkerReq.effectiveTenant, if_pos hempty, htenant hempty]
    rcases hconsumer with rfl | rfl
    · rw [LeaseWorkerReq.consumer, if_pos hempty, Option.getD_none, heffective]
    · rw [heffective, resumeConsumer, Option.filter_some]
      split
      next => rfl
      next => rfl
  · have heffective : req.effectiveTenant = req.consumerTenant := by
      rw [LeaseWorkerReq.effectiveTenant, if_neg hempty]
    rcases hconsumer with rfl | rfl
    · rw [LeaseWorkerReq.consumer, if_neg hempty, Option.getD_some, heffective]
    · rw [heffective, resumeConsumer, Option.filter_some,
        if_pos (by rw [Bool.eq_false_iff.mpr hempty]; rfl), Option.getD_some]

theorem leaseResuming_wanes (hs : s.index.Sound) (hfs : s.funcs[req.funcKey]? = some fs)
    (hroom : s.exceedsGpuLimit req.effectiveTenant fs.func.runningResource.gpu.gpuCount = false) :
    (leaseResuming env req tx req.funcKey).wp (fun _ t => LeaseWanes s req t)
      (fun _ t => LeaseWanes s req t) (fun _ => True) s := by
  have hlife : ∀ {u t : SchedulerHandler}, LeaseWanes s req u → t.life = u.life → LeaseWanes s req t := by
    intro u t hu ht
    rcases hu with hu | ⟨fs', w, hfs', hw, hroom'⟩
    · refine Or.inl fun k => ?_
      rw [slot_of_life ht]
      exact hu k
    · refine Or.inr ⟨fs', w, hfs', ⟨hw.tracked, hw.rests, hw.func, ?_, ?_⟩, hroom'⟩
      · rw [slot_of_life ht]
        exact hw.recorded
      · rw [slot_of_life ht]
        exact hw.others
  simp only [leaseResuming]
  rw [wp_bind, wp_attempt]
  refine wp_mono (resumePod_spec env req.funcKey (some req.effectiveTenant) hs) (fun _ s₁ h₁ => ?_)
    (fun _ s₁ h₁ => ?_) fun _ _ => trivial
  · obtain ⟨w, hw⟩ := h₁
    have hwanes := hw.leaseWanes hs hfs hroom
    exact wp_mono (quiet_pushLeaseWorkerReq env req.funcKey req tx s₁) (fun _ t ht => hlife hwanes ht)
      (fun _ t ht => hlife hwanes ht) fun _ _ => trivial
  · have hwanes : LeaseWanes s req s₁ := Or.inl fun k => (h₁.path k).wanes fun act hact => by
      rw [hact]
      exact id
    exact wp_mono (quiet_refuseLease env req tx _ s₁) (fun _ t ht => hlife hwanes ht)
      (fun _ t ht => hlife hwanes ht) fun _ _ => trivial

/-- **A lease request** makes one pod active at most, and there was room for it. -/
theorem processLeaseWorkerReq_wanes (hs : s.index.Sound) :
    (processLeaseWorkerReq env req tx).wp (fun _ t => LeaseWanes s req t)
      (fun _ t => LeaseWanes s req t) (fun _ => True) s := by
  refine wp_processLeaseWorkerReq hs trivial (fun error => ?_)
    (fun fs w hfs hroom hw hfunc _ hstate => leaseIdle_wanes hs hw hfunc hstate hfs hroom)
    fun fs hfs hroom => leaseResuming_wanes hs hfs hroom
  exact wp_mono (quiet_refuseLease env req tx error s) (fun _ t ht => .of_life ht)
    (fun _ t ht => .of_life ht) fun _ _ => trivial

end Leases

/-! ## Use on behalf of a tenant -/

/-- Is the pod with the key active? -/
def SchedulerHandler.active (s : SchedulerHandler) (k : String) : Bool :=
  (s.podState k).any WorkerPodState.isActive

/-- Does a gateway work with the pod? -/
def SchedulerHandler.works (s : SchedulerHandler) (k : String) : Bool :=
  (s.podState k).any WorkerPodState.isWorking

/-- The scheduler, and the tenants whose lease requests have got the pods. -/
structure Using where
  /-- the scheduler -/
  sched : SchedulerHandler := {}
  /-- the tenants -/
  user : String → Option String := fun _ => none

namespace Using

/-- The tenant a pod is used for after a call that has left the scheduler in the state `t`: a
request takes the pod that becomes active, and a queued one the pod that is handed out. -/
def userAfter (x : Using) (c : Call) (t : SchedulerHandler) (k : String) : Option String :=
  if t.active k then
    match c.2 with
    | .msg (.leaseWorker req _) => if x.sched.active k then x.user k else some req.effectiveTenant
    | .event (.podModified pod) =>
      if t.works k && !x.sched.works k then
        (firstAlive c.1 (x.sched.queueOf pod.funcKey)).map fun q => q.req.effectiveTenant
      else x.user k
    | _ => x.user k
  else none

/-- A call of a handler. -/
def next (x : Using) (c : Call) : Option Using :=
  (x.sched.next c).map fun t => ⟨t, x.userAfter c t⟩

/-- Some calls. -/
def calls (x : Using) (l : List Call) : Option Using := l.foldlM next x

/-- The GPUs that a pod uses on behalf of a tenant. -/
def gpus (x : Using) (tenant k : String) (w : WorkerPod) : ℕ :=
  if (x.sched.stateOf w).isActive && (x.user k).getD w.pod.tenant == tenant then w.pod.gpuCount else 0

/-- The GPUs of the pods that are resuming or working on behalf of a tenant. -/
def activeGpu (x : Using) (tenant : String) : ℕ := x.sched.pods.total (x.gpus tenant)

/-- A scheduler that has just started. -/
structure Start (x : Using) : Prop where
  /-- nothing is known -/
  fresh : Fresh x.sched
  /-- nothing is used -/
  user : ∀ k, x.user k = none

/-! ## The condition -/

/-- There is room for the pod beside the others. -/
def Room (x : Using) (tenant : String) (pod : FuncPod) : Prop :=
  BTreeMap.total (x.gpus tenant) (x.sched.pods.erase pod.podKey) + pod.gpuCount ≤
    (x.sched.tenantGpuLimit tenant).toNat

/-- A free pod of the function that is asked for has no more GPUs than the limit is checked for,
and the tenant that is recorded for it is the one that asks. -/
def LeaseOk (x : Using) (tenant : String) (req : LeaseWorkerReq) : Prop :=
  req.effectiveTenant = tenant → ∀ fs, x.sched.funcs[req.funcKey]? = some fs →
    let gpuCount := fs.func.runningResource.gpu.gpuCount.toNat
    x.sched.tenantActiveGpu tenant + gpuCount < 2 ^ 64 ∧
      ∀ (k : String) w, x.sched.pods[k]? = some w → (x.sched.stateOf w).isActive = false →
        w.pod.funcKey = req.funcKey ∨ w.pod.funcKey = fs.func.id →
        w.pod.gpuCount ≤ gpuCount ∧ (req.consumerTenant.isEmpty = true → w.pod.tenant = req.tenant)

/-- If the pod is used for the tenant after the report, then there is room for it, and the
tenant is the one that is recorded. -/
def ReportOk (x : Using) (tenant : String) (env : Env) (pod : FuncPod) : Prop :=
  ∀ w, x.sched.pods[pod.podKey]? = some w →
    match x.sched.stateOf w, pod.state with
    | .working _, _ => (x.user pod.podKey).getD pod.tenant = tenant →
      (x.sched.consumerOf w).getD pod.tenant = tenant ∧ x.Room tenant pod
    | _, .resuming => (x.user pod.podKey).getD pod.tenant = tenant → pod.tenant = tenant ∧ x.Room tenant pod
    -- the pod is handed out without another look at the limit
    | _, .ready => ∀ q, firstAlive env (x.sched.queueOf pod.funcKey) = some q →
      q.req.effectiveTenant = tenant → q.req.consumer.getD pod.tenant = tenant ∧ x.Room tenant pod
    | _, _ => True

/-- What is active for the tenant after the call was active for it before, as it is. -/
def OnlyLeases (x : Using) (tenant : String) (c : Call) : Prop :=
  ∀ t, x.sched.next c = some t → ∀ k pod cell, (t.slot k).entry = some (pod, cell) →
    cell.state.isActive = true → (x.user k).getD pod.tenant = tenant →
    (x.sched.slot k).entry = some (pod, cell)

/-- The limit of the tenant stays what it is, and the tenant uses pods only through lease
requests. -/
structure Promised (tenant : String) (limit : UInt64) (x : Using) (c : Call) : Prop where
  /-- the limit -/
  limit : x.sched.tenantGpuLimit tenant = limit
  /-- no other use -/
  leases : c.2.Starts → x.OnlyLeases tenant c

/-- A request is checked for what it gets. -/
structure Ok (tenant : String) (limit : UInt64) (x : Using) (c : Call) : Prop
    extends Promised tenant limit x c where
  /-- the index stays sound -/
  index : c.2.IndexOk x.sched
  /-- lease requests -/
  lease : ∀ req tx, c.2 = .msg (.leaseWorker req tx) → x.LeaseOk tenant req
  /-- reports -/
  report : ∀ pod, c.2 = .event (.podModified pod) → x.ReportOk tenant c.1 pod

/-- What a run keeps. -/
structure Inv (tenant : String) (limit : UInt64) (x : Using) : Prop where
  /-- the index is sound -/
  sound : x.sched.index.Sound
  /-- the tenant of an active pod is recorded -/
  recorded : ∀ k pod c, (x.sched.slot k).entry = some (pod, c) → c.state.isActive = true →
    (x.user k).getD pod.tenant = tenant → c.consumerTenant.getD pod.tenant = tenant
  /-- the limit is kept -/
  capped : x.activeGpu tenant ≤ limit.toNat

section Entries

variable {s : SchedulerHandler} {x y : Using} {tenant k : String} {pod : FuncPod} {c : WorkerCell}

theorem active_of_entry (h : (s.slot k).entry = some (pod, c)) :
    s.active k = c.state.isActive := by
  rw [active, podState, h, Option.map_some, Option.any_some]

theorem works_of_entry (h : (s.slot k).entry = some (pod, c)) :
    s.works k = c.state.isWorking := by
  rw [works, podState, h, Option.map_some, Option.any_some]

/-- What a pod is worth. -/
theorem worth_of_entry (h : (x.sched.slot k).entry = some (pod, c)) :
    BTreeMap.worth (x.gpus tenant) x.sched.pods k =
      if c.state.isActive && (x.user k).getD pod.tenant == tenant then pod.gpuCount else 0 := by
  obtain ⟨w, hw, heq⟩ := Option.map_eq_some_iff.mp h
  obtain ⟨rfl, rfl⟩ := Prod.mk.inj heq
  rw [BTreeMap.worth_of_get hw]
  rfl

theorem worth_of_no_entry (h : (x.sched.slot k).entry = none) :
    BTreeMap.worth (x.gpus tenant) x.sched.pods k = 0 :=
  BTreeMap.worth_of_none (Option.map_eq_none_iff.mp h)

/-- What the pod uses for the tenant in `y` it used for it in `x`. -/
def Keeps (x y : Using) (tenant k : String) : Prop :=
  ∀ pod c, (y.sched.slot k).entry = some (pod, c) → c.state.isActive = true →
    (y.user k).getD pod.tenant = tenant →
    (x.sched.slot k).entry = some (pod, c) ∧ (x.user k).getD pod.tenant = tenant

theorem Keeps.worth_le (h : x.Keeps y tenant k) : BTreeMap.worth (y.gpus tenant) y.sched.pods k ≤
    BTreeMap.worth (x.gpus tenant) x.sched.pods k := by
  rcases hy : (y.sched.slot k).entry with _ | ⟨pod, c⟩
  · rw [worth_of_no_entry hy]
    exact Nat.zero_le _
  · rw [worth_of_entry hy]
    split
    next huse =>
      simp only [Bool.and_eq_true, beq_iff_eq] at huse
      obtain ⟨hx, huser⟩ := h pod c hy huse.1 huse.2
      rw [worth_of_entry hx, huse.1, huser, beq_self_eq_true, Bool.and_self, if_pos rfl]
    next => exact Nat.zero_le _

end Entries

section Steps

variable {x y : Using} {tenant : String} {limit : UInt64}

/-- Nothing new is used. -/
theorem Inv.keeps (hx : x.Inv tenant limit) (hs : y.sched.index.Sound) (h : ∀ k, x.Keeps y tenant k) :
    y.Inv tenant limit where
  sound := hs
  recorded k pod c hy hc huser := by
    obtain ⟨hentry, huser'⟩ := h k pod c hy hc huser
    exact hx.recorded k pod c hentry hc huser'
  capped := (BTreeMap.total_le fun k => (h k).worth_le).trans hx.capped

/-- One pod is used anew, and there is room for it. -/
theorem Inv.takes (hx : x.Inv tenant limit) (hs : y.sched.index.Sound) (k₀ : String)
    (h : ∀ k, k ≠ k₀ → x.Keeps y tenant k)
    (hnew : ∀ pod c, (y.sched.slot k₀).entry = some (pod, c) → c.state.isActive = true →
      (y.user k₀).getD pod.tenant = tenant → c.consumerTenant.getD pod.tenant = tenant ∧
        BTreeMap.total (x.gpus tenant) (x.sched.pods.erase k₀) + pod.gpuCount ≤ limit.toNat) :
    y.Inv tenant limit where
  sound := hs
  recorded k pod c hy hc huser := by
    by_cases hk : k = k₀
    · subst hk
      exact (hnew pod c hy hc huser).1
    · obtain ⟨hentry, huser'⟩ := h k hk pod c hy hc huser
      exact hx.recorded k pod c hentry hc huser'
  capped := by
    have hle : y.activeGpu tenant ≤ BTreeMap.total (x.gpus tenant) (x.sched.pods.erase k₀) +
        BTreeMap.worth (y.gpus tenant) y.sched.pods k₀ :=
      BTreeMap.total_le_erase k₀ fun k hk => (h k hk).worth_le
    have hothers : BTreeMap.total (x.gpus tenant) (x.sched.pods.erase k₀) ≤ limit.toNat :=
      (Nat.le_add_right _ _).trans ((BTreeMap.total_erase_add k₀).le.trans hx.capped)
    refine hle.trans ?_
    rcases hy : (y.sched.slot k₀).entry with _ | ⟨pod, c⟩
    · rw [worth_of_no_entry hy]
      exact hothers
    · rw [worth_of_entry hy]
      split
      next huse =>
        simp only [Bool.and_eq_true, beq_iff_eq] at huse
        exact (hnew pod c hy huse.1 huse.2).2
      next => exact hothers

/-- The scheduler counts what is used for the tenant. -/
theorem Inv.activeGpu_le (hx : x.Inv tenant limit) : x.activeGpu tenant ≤ x.sched.tenantActiveGpu tenant := by
  refine BTreeMap.total_le fun k => ?_
  rcases hk : x.sched.pods[k]? with _ | w
  · rw [BTreeMap.worth_of_none hk]
    exact Nat.zero_le _
  · rw [BTreeMap.worth_of_get hk, BTreeMap.worth_of_get hk, gpus]
    split
    next huse =>
      simp only [Bool.and_eq_true, beq_iff_eq] at huse
      have hrecorded := hx.recorded k w.pod (x.sched.workers w.ref) (by rw [slot_of_tracked hk]) huse.1 huse.2
      have hcounts : x.sched.countsFor tenant w = true :=
        Bool.and_eq_true_iff.mpr ⟨huse.1, beq_iff_eq.mpr hrecorded⟩
      rw [if_pos hcounts]
      exact Nat.le_refl _
    next => exact Nat.zero_le _

/-- There is room for what was checked. -/
theorem Inv.room (hx : x.Inv tenant limit) (hlimit : x.sched.tenantGpuLimit tenant = limit)
    (hexempt : tenantIsGpuCapExempt tenant = false) {gpuCount : UInt64}
    (hroom : x.sched.exceedsGpuLimit tenant gpuCount = false)
    (hfits : x.sched.tenantActiveGpu tenant + gpuCount.toNat < 2 ^ 64) :
    x.activeGpu tenant + gpuCount.toNat ≤ limit.toNat := by
  have hle := hx.activeGpu_le
  simp only [exceedsGpuLimit, hexempt, hlimit, Bool.not_false, Bool.true_and, decide_eq_false_iff_not,
    Nat.not_lt] at hroom
  omega

variable {c : Call} {t : SchedulerHandler} {k : String}

/-- The tenant an active pod is used for stays the same, outside leases and reports. -/
theorem userAfter_eq (huses : ¬ c.2.Uses) (hactive : t.active k = true) :
    x.userAfter c t k = x.user k := by
  rw [userAfter, if_pos hactive]
  split
  next heq => exact absurd (by rw [heq]; trivial) huses
  next heq => exact absurd (by rw [heq]; trivial) huses
  next => rfl

/-- **Other calls.** -/
theorem Inv.next_other (hx : x.Inv tenant limit) (hok : x.Ok tenant limit c) (huses : ¬ c.2.Uses)
    (hnext : x.sched.next c = some t) : Inv tenant limit ⟨t, x.userAfter c t⟩ := by
  refine hx.keeps (next_sound hx.sound hok.index hnext) fun k pod cell hentry hcell huser => ?_
  have hkeep := userAfter_eq (x := x) huses ((active_of_entry hentry).trans hcell)
  simp only [hkeep] at huser
  refine ⟨?_, huser⟩
  by_cases hstarts : c.2.Starts
  · exact hok.leases hstarts t hnext k pod cell hentry hcell huser
  · exact (next_path hx.sound hok.index hnext k).wanes
      (fun act hact hstart => hstarts ((Handler.acts_other huses k act hact).2 hstart)) pod cell hentry hcell

/-- **Lease requests.** -/
theorem Inv.next_lease (hx : x.Inv tenant limit) (hok : x.Ok tenant limit c)
    (hexempt : tenantIsGpuCapExempt tenant = false) {req : LeaseWorkerReq} {tx : ℕ}
    (hc : c.2 = .msg (.leaseWorker req tx)) (hnext : x.sched.next c = some t) :
    Inv tenant limit ⟨t, x.userAfter c t⟩ := by
  obtain ⟨env, hd⟩ := c
  obtain rfl : hd = .msg (.leaseWorker req tx) := hc
  have hs := next_sound hx.sound hok.index hnext
  have hold : ∀ {k pod cell}, (t.slot k).entry = some (pod, cell) → cell.state.isActive = true →
      (x.sched.slot k).Wanes (t.slot k) →
      (x.userAfter (env, .msg (.leaseWorker req tx)) t k).getD pod.tenant = tenant →
      (x.sched.slot k).entry = some (pod, cell) ∧ (x.user k).getD pod.tenant = tenant := by
    intro k pod cell hentry hcell hwanes huser
    have hentry' := hwanes pod cell hentry hcell
    have hactive := (active_of_entry hentry').trans hcell
    rw [userAfter, if_pos ((active_of_entry hentry).trans hcell)] at huser
    simp only [hactive, if_true] at huser
    exact ⟨hentry', huser⟩
  have hlease : LeaseWanes x.sched req t :=
    .of_quiet (wp_state (processLeaseWorkerReq_wanes (s := { x.sched with out := [] }) hx.sound) hnext)
  rcases hlease with hwanes | ⟨fs, w, hfs, htakes, hroom⟩
  · exact hx.keeps hs fun k pod cell hentry hcell huser => hold hentry hcell (hwanes k) huser
  · refine hx.takes hs w.pod.podKey (fun k hk pod cell hentry hcell huser =>
      hold hentry hcell (htakes.others k hk) huser) fun pod cell hentry hcell huser => ?_
    obtain ⟨rfl, hconsumer⟩ := htakes.recorded pod cell hentry hcell
    have hrests : x.sched.active w.pod.podKey = false := by
      have hentry' : (x.sched.slot w.pod.podKey).entry = some (w.pod, x.sched.workers w.ref) := by
        rw [slot_of_tracked htakes.tracked]
      exact (active_of_entry hentry').trans htakes.rests
    -- the pod is used for the tenant that asks
    have hasks : req.effectiveTenant = tenant := by
      simp only [userAfter, if_pos ((active_of_entry hentry).trans hcell), hrests,
        Bool.false_eq_true, if_false, Option.getD_some] at huser
      exact huser
    obtain ⟨hfits, hpods⟩ := hok.lease req tx rfl hasks fs hfs
    obtain ⟨hgpus, htenant⟩ := hpods w.pod.podKey w htakes.tracked htakes.rests htakes.func
    rw [hasks] at hroom
    have hlimit := hx.room hok.limit hexempt hroom hfits
    refine ⟨?_, ?_⟩
    · rw [getD_recorded hconsumer htenant, hasks]
    · have herase := BTreeMap.total_erase_add (f := x.gpus tenant) (m := x.sched.pods) w.pod.podKey
      have hall : x.activeGpu tenant = BTreeMap.total (x.gpus tenant) x.sched.pods := rfl
      omega

/-- The pods that are not reported stay as they are. -/
theorem keeps_report {env : Env} {pod : FuncPod} (hslot : t.slot k = x.sched.slot k) :
    x.Keeps ⟨t, x.userAfter (env, .event (.podModified pod)) t⟩ tenant k := by
  intro p cell hentry hcell huser
  have hentry' : (x.sched.slot k).entry = some (p, cell) := by
    rw [← hslot]
    exact hentry
  have hworks : t.works k = x.sched.works k := by
    rw [works_of_entry hentry, works_of_entry hentry']
  refine ⟨hentry', ?_⟩
  simpa only [userAfter, if_pos ((active_of_entry hentry).trans hcell), hworks, Bool.and_not_self,
    Bool.false_eq_true, if_false] using huser

/-- **Reports.** -/
theorem Inv.next_report (hx : x.Inv tenant limit) (hok : x.Ok tenant limit c) {pod : FuncPod}
    (hc : c.2 = .event (.podModified pod)) (hnext : x.sched.next c = some t) :
    Inv tenant limit ⟨t, x.userAfter c t⟩ := by
  obtain ⟨env, hd⟩ := c
  obtain rfl : hd = .event (.podModified pod) := hc
  have hs := next_sound hx.sound hok.index hnext
  have hreported : Reported env pod { x.sched with out := [] } t :=
    wp_state (updatePod_spec env pod (s := { x.sched with out := [] }) hx.sound.toKeyed) hnext
  obtain ⟨w, hw⟩ := Option.isSome_iff_exists.mp hreported.tracked
  have hold : (x.sched.slot pod.podKey).entry = some (w.pod, x.sched.workers w.ref) := by
    rw [slot_of_tracked (s := x.sched) hw]
  have hreport := hok.report pod rfl w hw
  refine hx.takes hs pod.podKey (fun k hk => keeps_report (hreported.others k hk))
    fun p cell hentry hcell huser => ?_
  have hroom : x.Room tenant pod → BTreeMap.total (x.gpus tenant) (x.sched.pods.erase pod.podKey) +
      pod.gpuCount ≤ limit.toNat := fun h => by
    rw [← hok.limit]
    exact h
  have hworks : x.sched.works pod.podKey = (x.sched.stateOf w).isWorking := works_of_entry hold
  have hworks' : t.works pod.podKey = cell.state.isWorking := works_of_entry hentry
  simp only [userAfter, if_pos ((active_of_entry hentry).trans hcell), hworks, hworks'] at huser
  obtain ⟨act, hact, hstep⟩ := hreported.act
  have hstep' : Slot.Step act (x.sched.slot pod.podKey) (t.slot pod.podKey) := hstep
  generalize x.sched.slot pod.podKey = a at hold hstep'
  generalize t.slot pod.podKey = b at hentry hstep'
  have hstate : x.sched.stateOf w = (x.sched.workers w.ref).state := rfl
  cases hstep' with
  | rebuilt =>
    obtain ⟨rfl, -⟩ := hact.imp_left Eq.symm
    obtain ⟨rfl, rfl⟩ := Prod.mk.inj (Option.some.inj hold)
    obtain ⟨rfl, rfl⟩ := Prod.mk.inj (Option.some.inj hentry)
    rcases hworking : (x.sched.stateOf w).isWorking with _ | _
    · -- only a pod that is being resumed is active again
      have hother : ∀ g, (x.sched.workers w.ref).state ≠ .working g :=
        isWorking_eq_false_iff.mp hworking
      rw [WorkerCell.rebuild_other hother] at hcell huser ⊢
      obtain ⟨hresuming, hconsumer⟩ := WorkerCell.new_active hcell
      rw [hresuming] at hreport
      have hresumes : (x.user pod.podKey).getD pod.tenant = tenant →
          pod.tenant = tenant ∧ x.Room tenant pod := by
        revert hreport hother
        rw [← hstate]
        cases x.sched.stateOf w with
        | working g => exact fun _ h => absurd rfl (h g)
        | _ => exact fun h _ => h
      rw [WorkerCell.new_works] at huser
      simp only [Bool.false_and, Bool.false_eq_true, if_false] at huser
      rw [hconsumer, Option.getD_none]
      exact ⟨(hresumes huser).1, hroom (hresumes huser).2⟩
    · obtain ⟨g, hg⟩ := isWorking_iff.mp hworking
      rw [WorkerCell.rebuild_working hg]
      rw [hg] at hreport
      simp only [hg, WorkerPodState.isWorking, Bool.not_true, Bool.and_false, Bool.false_eq_true,
        if_false] at huser
      exact ⟨(hreport huser).1, hroom (hreport huser).2⟩
  | granted hidle hready =>
    obtain ⟨rfl, q, hq, rfl, rfl⟩ := hact.imp_left Eq.symm
    obtain ⟨rfl, rfl⟩ := Prod.mk.inj (Option.some.inj hold)
    obtain ⟨rfl, rfl⟩ := Prod.mk.inj (Option.some.inj hentry)
    have hother : ∀ g, (x.sched.workers w.ref).state ≠ .working g := fun g hg => by
      rw [WorkerCell.rebuild_working hg, hg] at hidle
      cases hidle
    rw [hready] at hreport
    have hgranted : ∀ q, firstAlive env (x.sched.queueOf pod.funcKey) = some q →
        q.req.effectiveTenant = tenant → q.req.consumer.getD pod.tenant = tenant ∧ x.Room tenant pod := by
      revert hreport hother
      rw [← hstate]
      cases x.sched.stateOf w with
      | working g => exact fun _ h => absurd rfl (h g)
      | _ => exact fun h _ => h
    have hq' : firstAlive env (x.sched.queueOf pod.funcKey) = some q := hq
    have hrests : (x.sched.stateOf w).isWorking = false := isWorking_eq_false_iff.mpr hother
    have hgives : (WorkerPodState.working q.req.gatewayId).isWorking = true := rfl
    simp only [hrests, hgives, Bool.not_false, Bool.and_self, if_true, hq', Option.map_some,
      Option.getD_some] at huser
    exact ⟨(hgranted q hq' huser).1, hroom (hgranted q hq' huser).2⟩
  | settled =>
    obtain ⟨rfl, rfl⟩ := Prod.mk.inj (Option.some.inj hentry)
    cases hcell
  | _ => exact hact.elim

/-- **The step.** -/
theorem Inv.next (hx : x.Inv tenant limit) (hexempt : tenantIsGpuCapExempt tenant = false)
    (hok : x.Ok tenant limit c) (hnext : x.sched.next c = some t) :
    Inv tenant limit ⟨t, x.userAfter c t⟩ := by
  by_cases huses : c.2.Uses
  · obtain ⟨env, hd⟩ := c
    cases hd with
    | msg m =>
      cases m with
      | leaseWorker req tx => exact hx.next_lease hok hexempt rfl hnext
      | _ => exact huses.elim
    | event e =>
      cases e with
      | podModified pod => exact hx.next_report hok rfl hnext
      | _ => exact huses.elim
    | _ => exact huses.elim
  · exact hx.next_other hok huses hnext

theorem Start.inv (h : x.Start) : x.Inv tenant limit where
  sound := h.fresh.sound
  recorded k pod c hentry := by
    rw [slot_of_untracked (h.fresh.get k)] at hentry
    cases hentry
  capped := by
    have hnone : x.activeGpu tenant = 0 := by
      rw [activeGpu, h.fresh.pods]
      rfl
    rw [hnone]
    exact Nat.zero_le _

/-- **The limit is kept** in every run in which a request is checked for what it gets, and a
pod is handed out only when there is room for it. -/
theorem activeGpu_le_of_reach (hexempt : tenantIsGpuCapExempt tenant = false)
    (h : Reach next Start (Ok tenant limit) x) : x.activeGpu tenant ≤ limit.toNat := by
  have hinv : x.Inv tenant limit := by
    refine h.invariant (I := Inv tenant limit) (fun _ h => h.inv) fun x c y hx hok hnext => ?_
    obtain ⟨t, ht, rfl⟩ := Option.map_eq_some_iff.mp hnext
    exact hx.next hexempt hok ht
  exact hinv.capped

end Steps

/-- The state after some calls. -/
def after (x : Using) (l : List Call) : Using := (x.calls l).getD x

theorem next_after {x : Using} {l : List Call} {c : Call} (h : (x.calls (l ++ [c])).isSome) :
    (x.after l).next c = some (x.after (l ++ [c])) := next_getD_foldlM (f := next) h

/-- Nothing is active after the call. -/
theorem onlyLeases_of_idle {x y : Using} {tenant : String} {c : Call} (h : x.next c = some y)
    (hidle : (y.sched.pods.toList.all fun p => !(y.sched.stateOf p.2).isActive) = true) :
    x.OnlyLeases tenant c := by
  intro t ht k pod cell hentry hcell
  obtain ⟨t', ht', rfl⟩ := Option.map_eq_some_iff.mp h
  obtain rfl := Option.some.inj (ht'.symm.trans ht)
  obtain ⟨w, hw, heq⟩ := Option.map_eq_some_iff.mp hentry
  obtain ⟨-, rfl⟩ := Prod.mk.inj heq
  have hnone := List.all_eq_true.mp hidle (k, w) (BTreeMap.mem_toList.mpr hw)
  rw [Bool.not_eq_true'] at hnone
  exact absurd (hnone.symm.trans hcell) nofun

end Using

namespace Sample

/-- A new scheduler that knows that the tenant may use one GPU. -/
def limitedToOne : Using where
  sched := { tenants := (∅ : BTreeMap String Tenant).insert "t" { name := "t", maxGpu := 1 } }

end Sample

namespace Using

theorem start_oneGpu : Start Sample.limitedToOne := ⟨⟨rfl, rfl, rfl, rfl, rfl, rfl⟩, fun _ => rfl⟩

/-- Events that are no reports leave nothing to check but the index. -/
theorem ok_of_event {x y : Using} {tenant : String} {limit : UInt64} {e : DeltaEvent}
    (hnext : x.next (Sample.event e) = some y) (hreport : ∀ pod, e ≠ .podModified pod)
    (hlimit : x.sched.tenantGpuLimit tenant = limit)
    (hidle : (y.sched.pods.toList.all fun p => !(y.sched.stateOf p.2).isActive) = true)
    (hindex : (Handler.event e).IndexOk x.sched) : x.Ok tenant limit (Sample.event e) where
  limit := hlimit
  leases _ := onlyLeases_of_idle hnext hidle
  index := hindex
  lease _ _ h := Handler.noConfusion h
  report pod h := absurd (Handler.event.inj h) (hreport pod)

/-- The tenant uses one GPU after a lease. -/
theorem activeGpu_after_lease :
    (Sample.limitedToOne.calls (Sample.readyPod ++ [Sample.lease 7])).isSome ∧
      (Sample.limitedToOne.after (Sample.readyPod ++ [Sample.lease 7])).activeGpu "t" ≤ (1 : UInt64).toNat := by
  refine ⟨by decide +kernel, activeGpu_le_of_reach rfl ?_⟩
  have h₁ : Reach next Start (Ok "t" 1) (Sample.limitedToOne.after [Sample.event (.nodeAdded Sample.node)]) := by
    have hnext : Sample.limitedToOne.next (Sample.event (.nodeAdded Sample.node)) =
        some (Sample.limitedToOne.after [Sample.event (.nodeAdded Sample.node)]) :=
      next_after (l := []) (by decide +kernel)
    refine .step (.init start_oneGpu) (ok_of_event hnext (fun _ h => DeltaEvent.noConfusion h)
      (by decide +kernel) (by decide +kernel) ⟨trivial, ?_⟩) hnext
    show PodIndex.NodeArrivable _ _
    decide +kernel
  have h₂ : Reach next Start (Ok "t" 1) (Sample.limitedToOne.after [Sample.event (.nodeAdded Sample.node),
      Sample.event (.funcAdded Sample.func)]) := by
    have hnext := next_after (x := Sample.limitedToOne) (l := [Sample.event (.nodeAdded Sample.node)])
      (c := Sample.event (.funcAdded Sample.func)) (by decide +kernel)
    refine .step h₁ (ok_of_event hnext (fun _ h => DeltaEvent.noConfusion h) (by decide +kernel)
      (by decide +kernel) ⟨trivial, ?_⟩) hnext
    show PodIndex.FuncArrivable _ _
    decide +kernel
  have h₃ : Reach next Start (Ok "t" 1) (Sample.limitedToOne.after Sample.readyPod) := by
    have hnext := next_after (x := Sample.limitedToOne) (l := [Sample.event (.nodeAdded Sample.node),
      Sample.event (.funcAdded Sample.func)]) (c := Sample.event (.podAdded (Sample.pod "1" .ready)))
      (by decide +kernel)
    exact .step h₂ (ok_of_event hnext (fun _ h => DeltaEvent.noConfusion h) (by decide +kernel)
      (by decide +kernel) ⟨trivial, fun hnew => absurd hnew (by decide +kernel)⟩) hnext
  refine .step (c := Sample.lease 7) h₃ ⟨⟨by decide +kernel, fun h => h.elim⟩, ⟨trivial, trivial⟩,
    fun req tx heq _ fs hfs => ?_, fun _ h => Handler.noConfusion h⟩ (next_after (by decide +kernel))
  obtain ⟨rfl, -⟩ := WorkerHandlerMsg.leaseWorker.inj (Handler.msg.inj heq)
  -- the function and its pod ask for one GPU each, and none is used yet
  have hfunc : ((Sample.limitedToOne.after Sample.readyPod).sched.funcs[(Sample.leaseReq 7).funcKey]?.all
      fun fs => fs.func.runningResource.gpu.gpuCount == 1) = true := by decide +kernel
  have hpods : ((Sample.limitedToOne.after Sample.readyPod).sched.pods.toList.all fun p =>
      p.2.pod.gpuCount ≤ 1 ∧ p.2.pod.tenant = "t") = true := by decide +kernel
  have hnone : (Sample.limitedToOne.after Sample.readyPod).sched.tenantActiveGpu "t" = 0 := by decide +kernel
  rw [hfs, Option.all_some, beq_iff_eq] at hfunc
  rw [hnone, hfunc]
  refine ⟨by decide, fun k w hw _ _ => ?_⟩
  have hpod := List.all_eq_true.mp hpods (k, w) (BTreeMap.mem_toList.mpr hw)
  rw [decide_eq_true_iff] at hpod
  exact ⟨hpod.1, fun _ => hpod.2⟩

/-- A queued request gets a pod although another one is being resumed for it, and the limit has
been used up. -/
theorem queued_lease_exceeds_limit : ¬ ∀ (tenant : String) (limit : UInt64) (x : Using),
    tenantIsGpuCapExempt tenant = false → Reach next Start (Promised tenant limit) x →
      x.activeGpu tenant ≤ limit.toNat := by
  intro h
  have hstep : ∀ {l : List Call} {c : Call}, (Sample.limitedToOne.calls (l ++ [c])).isSome = true →
      (Sample.limitedToOne.after l).sched.tenantGpuLimit "t" = 1 →
      (¬ c.2.Starts ∨ ((Sample.limitedToOne.after (l ++ [c])).sched.pods.toList.all fun p =>
        !((Sample.limitedToOne.after (l ++ [c])).sched.stateOf p.2).isActive) = true) →
      Reach next Start (Promised "t" 1) (Sample.limitedToOne.after l) →
      Reach next Start (Promised "t" 1) (Sample.limitedToOne.after (l ++ [c])) := by
    intro l c hsome hlimit hidle hreach
    refine .step hreach ⟨hlimit, fun hstarts => ?_⟩ (next_after hsome)
    exact onlyLeases_of_idle (next_after hsome) (hidle.resolve_left fun h => h hstarts)
  have h₁ := hstep (l := []) (c := Sample.event (.nodeAdded Sample.node)) (by decide +kernel)
    (by decide +kernel) (Or.inl id) (.init start_oneGpu)
  have h₂ := hstep (c := Sample.event (.funcAdded Sample.func)) (by decide +kernel)
    (by decide +kernel) (Or.inr (by decide +kernel)) h₁
  have h₃ := hstep (c := Sample.event (.podAdded (Sample.pod "1" .standby))) (by decide +kernel)
    (by decide +kernel) (Or.inr (by decide +kernel)) h₂
  have h₄ := hstep (c := Sample.event (.snapshotAdded Sample.readySnapshot)) (by decide +kernel)
    (by decide +kernel) (Or.inl id) h₃
  have h₅ := hstep (c := Sample.event (.podAdded (Sample.pod "2" .loading))) (by decide +kernel)
    (by decide +kernel) (Or.inr (by decide +kernel)) h₄
  have h₆ := hstep (c := Sample.lease 7) (by decide +kernel) (by decide +kernel) (Or.inl id) h₅
  have h₇ := hstep (c := Sample.event (.podModified (Sample.pod "2" .ready))) (by decide +kernel)
    (by decide +kernel) (Or.inl id) h₆
  have hle := h "t" 1 _ rfl h₇
  revert hle
  decide +kernel

end Using

end Inferx
