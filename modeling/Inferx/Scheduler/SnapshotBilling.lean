import Inferx.Lib.Runs
import Inferx.Scheduler.Coherence

/-!
# Snapshot sessions and the end of a snapshot

A pod that makes a snapshot is billed from its arrival. The session is closed when the
pod is removed, and only then: the report that the snapshot is done leaves it open, and
the periodic ticks and the final one bill the time after it as well. `SnapshotRun` follows
one pod through its events and the ticks between them, and keeps whether the time after
the snapshot has been billed.
-/

namespace Inferx

open Proc SchedulerHandler

/-! ## What is metered -/

/-- The billed interval, when it is one of a snapshot. -/
def Effect.snapshotTick? : Effect → Option UsageTick
  | .usageTick t => if t.usageType = .snapshot then some t else none
  | _ => none

/-- The part of the state that snapshot billing is about. -/
structure Metering where
  sessions : BTreeMap String BillingSession
  lastSession : ℕ
  enabled : Bool
  ticks : List UsageTick

namespace Metering

variable {m : Metering} {t : UsageTick} {env : Env}

/-- A session is opened. -/
def opened (m : Metering) (key : String) (c : BillingSession) (now : ℕ) : Metering :=
  { m with
    sessions := m.sessions.insert key c
    lastSession := m.lastSession + 1
    ticks := m.ticks ++ [⟨c, now, 0, .start, .snapshot⟩] }

/-- The session of a pod is closed, if there is one. -/
def ended (m : Metering) (key : String) (now : ℕ) : Metering :=
  if !m.enabled then m
  else
    match m.sessions[key]? with
    | none => m
    | some c =>
      { m with
        sessions := m.sessions.erase key
        ticks := m.ticks ++ [⟨c, now, now - c.lastTickTime, .final, .snapshot⟩] }

/-- The ticks of sessions that were opened after the given one. -/
def ticksAfter (m : Metering) (base : ℕ) : List UsageTick :=
  m.ticks.filter fun t => base < t.session.sessionId

/-- The periodic ticks that are due. -/
def due (m : Metering) (now : ℕ) : List UsageTick :=
  (m.sessions.toList.filter fun p => 0 < now - p.2.lastTickTime).map fun p =>
    ⟨p.2, now, now - p.2.lastTickTime, .periodic, .snapshot⟩

/-- The open sessions are billed up to now. -/
def ticked (m : Metering) (env : Env) : Metering :=
  if !m.enabled then m
  else
    { m with
      sessions := tickSessions env m.sessions
      ticks := m.ticks ++ m.due env.now }

theorem ended_none {key : String} {now : ℕ} (h : m.sessions[key]? = none) :
    m.ended key now = m := by
  unfold ended
  split
  next => rfl
  next => rw [h]

theorem ended_some {key : String} {c : BillingSession} (henabled : m.enabled = true)
    (h : m.sessions[key]? = some c) (now : ℕ) :
    m.ended key now =
      { m with
        sessions := m.sessions.erase key
        ticks := m.ticks ++ [⟨c, now, now - c.lastTickTime, .final, .snapshot⟩] } := by
  unfold ended
  rw [henabled, Bool.not_true, if_neg Bool.false_ne_true, h]

/-- A session after its periodic tick. -/
def billedUpTo (now : ℕ) (c : BillingSession) : BillingSession :=
  if 0 < now - c.lastTickTime then { c with lastTickTime := now } else c

theorem billedUpTo_sessionId (now : ℕ) (c : BillingSession) :
    (billedUpTo now c).sessionId = c.sessionId := by
  unfold billedUpTo
  split
  next => rfl
  next => rfl

theorem billedUpTo_lastTickTime {now : ℕ} {c : BillingSession} (h : c.lastTickTime ≤ now) :
    (billedUpTo now c).lastTickTime = now := by
  unfold billedUpTo
  split
  next => rfl
  next hdue => omega

theorem get_ticked_sessions (henabled : m.enabled = true) (env : Env) (k : String) :
    (m.ticked env).sessions[k]? = m.sessions[k]?.map (billedUpTo env.now) := by
  unfold ticked
  rw [henabled, Bool.not_true, if_neg Bool.false_ne_true]
  exact Std.ExtTreeMap.getElem?_map

theorem ticked_disabled (hdisabled : m.enabled = false) (env : Env) : m.ticked env = m := by
  unfold ticked
  rw [hdisabled, Bool.not_false, if_pos rfl]

theorem ticked_ticks (henabled : m.enabled = true) (env : Env) :
    (m.ticked env).ticks = m.ticks ++ m.due env.now := by
  unfold ticked
  rw [henabled, Bool.not_true, if_neg Bool.false_ne_true]

theorem ticked_lastSession (m : Metering) (env : Env) :
    (m.ticked env).lastSession = m.lastSession := by
  unfold ticked
  split
  next => rfl
  next => rfl

theorem ticked_enabled (m : Metering) (env : Env) : (m.ticked env).enabled = m.enabled := by
  unfold ticked
  split
  next => rfl
  next => rfl

/-- A session has the same id after the periodic ticks. -/
theorem ticked_sessionId {k : String} {c : BillingSession}
    (h : (m.ticked env).sessions[k]? = some c) :
    ∃ c' : BillingSession, m.sessions[k]? = some c' ∧ c'.sessionId = c.sessionId := by
  rcases henabled : m.enabled with _ | _
  · rw [ticked_disabled henabled] at h
    exact ⟨c, h, rfl⟩
  · rw [get_ticked_sessions henabled] at h
    obtain ⟨c', hc', rfl⟩ := Option.map_eq_some_iff.mp h
    exact ⟨c', hc', (billedUpTo_sessionId _ _).symm⟩

theorem mem_due {now : ℕ} : t ∈ m.due now ↔ ∃ (k : String) (c : BillingSession),
    m.sessions[k]? = some c ∧ c.lastTickTime < now ∧
      t = ⟨c, now, now - c.lastTickTime, .periodic, .snapshot⟩ := by
  unfold due
  rw [List.mem_map]
  constructor
  · rintro ⟨⟨k, c⟩, hp, rfl⟩
    obtain ⟨hp, hdue⟩ := List.mem_filter.mp hp
    exact ⟨k, c, BTreeMap.mem_toList.mp hp, Nat.sub_pos_iff_lt.mp (of_decide_eq_true hdue), rfl⟩
  · rintro ⟨k, c, hget, hdue, rfl⟩
    refine ⟨(k, c), List.mem_filter.mpr ⟨BTreeMap.mem_toList.mpr hget, ?_⟩, rfl⟩
    exact decide_eq_true (Nat.sub_pos_of_lt hdue)

end Metering

namespace SchedulerHandler

variable {s : SchedulerHandler}

/-- The part of the state that snapshot billing is about. -/
def metering (s : SchedulerHandler) : Metering where
  sessions := s.snapshotBillingSessions
  lastSession := s.lastSession
  enabled := s.config.enableSnapshotBilling
  ticks := s.out.filterMap Effect.snapshotTick?

theorem metering_emit {e : Effect} (he : e.snapshotTick? = none) :
    (s.emit e).metering = s.metering := by
  unfold metering emit
  simp [he]

theorem metering_removePendingSnapshot (f n : String) :
    (s.removePendingSnapshot f n).metering = s.metering := by
  unfold removePendingSnapshot
  split
  next => rfl
  next => rfl

theorem metering_endSnapshotPodBilling (env : Env) (key : String) :
    (s.endSnapshotPodBilling env key).metering = s.metering.ended key env.now := by
  unfold endSnapshotPodBilling Metering.ended
  rw [show s.metering.enabled = s.config.enableSnapshotBilling from rfl,
    show s.metering.sessions = s.snapshotBillingSessions from rfl]
  split
  next => rfl
  next =>
    rcases s.snapshotBillingSessions[key]? with _ | c
    · rfl
    · simp [metering, Effect.snapshotTick?]

theorem metering_emitPeriodicBillingTicks (env : Env) :
    (s.emitPeriodicBillingTicks env).metering = s.metering.ticked env := by
  have hdue : (periodicTicks env .snapshot s.snapshotBillingSessions).filterMap Effect.snapshotTick? =
      s.metering.due env.now := by
    unfold periodicTicks Metering.due metering
    rw [List.filterMap_map]
    exact List.filterMap_eq_map_iff_forall_eq_some.mpr fun _ _ => rfl
  unfold emitPeriodicBillingTicks Metering.ticked
  rw [show s.metering.enabled = s.config.enableSnapshotBilling from rfl]
  split
  next => rfl
  next =>
    rw [← hdue]
    simp [metering]

end SchedulerHandler

/-! ## What the handlers meter -/

/-- Is a session opened when the pod is added? Billing is on, the pod makes a snapshot, uses
GPUs, and is still at work. -/
def SchedulerHandler.bills (s : SchedulerHandler) (pod : FuncPod) : Bool :=
  s.config.enableSnapshotBilling && pod.createType == .snapshot && pod.state != .failed
    && !isSnapshotPodFinished pod.state && asI32 pod.reqResources.gpu.gpuCount != 0

/-- The session of a pod. -/
def sessionOf (env : Env) (pod : FuncPod) (id : ℕ) : BillingSession where
  sessionId := id
  startTime := env.now
  lastTickTime := env.now
  funckey := pod.funcKey
  gpuCount := asI32 pod.reqResources.gpu.gpuCount
  vramMb := asI64 pod.reqResources.gpu.vRam

/-- The metering after a pod has been added. -/
def SchedulerHandler.meteringAdded (env : Env) (pod : FuncPod) (s : SchedulerHandler) : Metering :=
  if s.bills pod then
    s.metering.opened pod.podKey (sessionOf env pod (s.lastSession + 1)) env.now
  else s.metering

theorem noteSnapshotPod_metering (env : Env) (pod : FuncPod) (s : SchedulerHandler) :
    (noteSnapshotPod env pod).wp (fun _ t => t.metering = s.meteringAdded env pod)
      (fun _ _ => False) (fun _ => True) s := by
  have hnot : s.bills pod = false → s.metering = s.meteringAdded env pod := fun h => by
    unfold meteringAdded
    rw [h, if_neg Bool.false_ne_true]
  unfold noteSnapshotPod
  split
  next hwork =>
    rw [Bool.and_eq_true] at hwork
    rw [wp_bind, wp_modify]
    split
    next hfinished => exact hnot (by unfold bills; rw [hfinished]; simp)
    next hunfinished =>
      unfold startSnapshotPodBilling
      rw [wp_bind, wp_get]
      dsimp only
      split
      next hoff =>
        refine hnot ?_
        rw [Bool.not_eq_true'] at hoff
        unfold bills
        rw [show s.config.enableSnapshotBilling = false from hoff]
        rfl
      next hon =>
        rw [Bool.not_eq_true', Bool.not_eq_false] at hon
        split
        next => trivial
        next =>
          split
          next hgpus =>
            refine hnot ?_
            unfold bills
            rw [hgpus]
            simp
          next hgpus =>
            have hbills : s.bills pod = true := by
              unfold bills
              rw [show s.config.enableSnapshotBilling = true from hon, hwork.1, hwork.2,
                Bool.eq_false_iff.mpr hunfinished]
              simpa using hgpus
            rw [wp_modify]
            unfold meteringAdded
            rw [hbills, if_pos rfl]
            simp [metering, Metering.opened, Effect.snapshotTick?, sessionOf, addPendingSnapshot]
  next hidle =>
    refine hnot ?_
    rw [Bool.not_eq_true, Bool.and_eq_false_iff] at hidle
    unfold bills
    rcases hidle with h | h
    · rw [h]
      simp
    · rw [h]
      simp

theorem fixes_addPodToNode (w : WorkerPod) : Fixes metering (addPodToNode w) := by
  refine Moves.bind Moves.get fun s => ?_
  split
  next => exact Moves.modify fun _ => rfl
  next =>
    refine Moves.bind (Moves.lift fun _ _ => trivial) fun _ => ?_
    exact Moves.modify fun _ => rfl

theorem addPod_metering (env : Env) (pod : FuncPod) (s : SchedulerHandler) :
    (addPod env pod).wp (fun _ t => t.metering = s.meteringAdded env pod)
      (fun _ t => t.metering = s.meteringAdded env pod) (fun _ => True) s := by
  have hrest : ∀ w : WorkerPod, Fixes metering (do
      modify (·.enlistIdle w)
      addPodToNode w
      modify (·.addPodToFunc w) : SchedM Unit) := by
    intro w
    refine Moves.bind (Moves.modify fun t => ?_) fun _ => Moves.bind (fixes_addPodToNode w) fun _ =>
      Moves.modify fun t => ?_
    · unfold enlistIdle
      split
      next => rfl
      next => rfl
    · unfold addPodToFunc
      split
      next => rfl
      next => rfl
  unfold addPod
  rw [wp_bind]
  show (trackNew _ >>= _).wp _ _ _ (s.withNewWorker pod)
  unfold trackNew
  rw [wp_bind, wp_bind, wp_get]
  split
  next => trivial
  next =>
    rw [wp_modify, wp_bind]
    refine wp_mono (noteSnapshotPod_metering env pod _) (fun _ t ht => ?_) (fun _ _ h => h.elim)
      fun _ h => h
    have hadded : t.metering = s.meteringAdded env pod := ht
    exact wp_mono (hrest _ t) (fun _ _ h => h.trans hadded) (fun _ _ h => h.trans hadded)
      fun _ h => h

theorem fixes_setWorking (w : WorkerPod) (g : ℤ) : Fixes metering (setWorking w g) := by
  refine Moves.bind Moves.get fun s => ?_
  split
  next => exact Moves.crash trivial
  next => exact Moves.crash trivial
  next => exact Moves.crash trivial
  next => exact Moves.modify fun _ => rfl

theorem fixes_serveLeaseQueue (env : Env) (w : WorkerPod) (f : String) (queue : List QueuedLease) :
    Fixes metering (serveLeaseQueue env w f queue) := by
  induction queue with
  | nil => exact Moves.bind (Moves.modify fun _ => rfl) fun _ => Moves.pure true
  | cons q rest ih =>
    refine Moves.bind (Moves.modify fun _ => rfl) fun _ => ?_
    split
    next => exact Moves.crash trivial
    next =>
      refine Moves.bind Moves.get fun s => ?_
      split
      next => exact Moves.throw _
      next =>
        split
        next =>
          refine Moves.bind ?_ fun _ => Moves.pure false
          refine Moves.bind (Moves.modify fun _ => metering_emit rfl) fun _ => ?_
          exact Moves.bind (fixes_setWorking w _) fun _ => Moves.modify fun _ => rfl
        next => exact ih

theorem fixes_updatePodInFunc (env : Env) (w : WorkerPod) :
    Fixes metering (updatePodInFunc env w) := by
  refine Moves.bind Moves.get fun s => ?_
  split
  next => exact Moves.bind (Moves.modify fun _ => rfl) fun _ => Moves.pure false
  next =>
    unfold updatePodOfFunc
    split
    next => exact Moves.crash trivial
    next =>
      refine Moves.bind (Moves.modify fun _ => rfl) fun _ => Moves.bind Moves.get fun s => ?_
      split
      next => exact fixes_serveLeaseQueue env w _ _
      next => exact Moves.pure false

theorem fixes_updatePodOnNode (w oldPod : WorkerPod) :
    Fixes metering (updatePodOnNode w oldPod) := by
  refine Moves.bind Moves.get fun s => ?_
  split
  next => exact Moves.modify fun _ => rfl
  next =>
    refine Moves.bind (Moves.lift fun _ _ => trivial) fun _ => ?_
    refine Moves.bind (Moves.lift fun _ _ => trivial) fun _ => ?_
    exact Moves.modify fun _ => rfl

/-- A report of a pod leaves its session as it is, whatever it reports. -/
theorem fixes_updatePod (env : Env) (pod : FuncPod) : Fixes metering (updatePod env pod) := by
  refine Moves.bind (fun _ => rfl) fun w => ?_
  refine Moves.bind ?_ fun oldPod => ?_
  · refine Moves.bind Moves.get fun s => ?_
    split
    next => exact Moves.crash trivial
    next => exact Moves.bind (Moves.modify fun _ => rfl) fun _ => Moves.pure _
  · refine Moves.bind (Moves.modify fun s => ?_) fun _ => ?_
    · unfold keepLease
      split
      next => rfl
      next => rfl
    · refine Moves.bind (fixes_updatePodOnNode w oldPod) fun _ => ?_
      refine Moves.bind (fixes_updatePodInFunc env w) fun _ => Moves.modify fun s => ?_
      split
      next => rfl
      next => rfl

theorem fixes_addSnapshotTask (env : Env) (n f : String) :
    Fixes metering (addSnapshotTask env n f) := by
  refine Moves.bind Moves.get fun s => ?_
  split
  next => exact Moves.crash trivial
  next =>
    split
    next => exact Moves.pure ()
    next => exact Moves.modify fun _ => rfl

theorem fixes_noteFailedPod (env : Env) (pod : FuncPod) :
    Fixes metering (noteFailedPod env pod) := by
  refine Moves.bind Moves.get fun s => ?_
  split
  next =>
    split
    next =>
      refine Moves.bind (fixes_addSnapshotTask env _ _) fun _ => ?_
      split
      next => exact Moves.modify fun _ => metering_emit rfl
      next => exact Moves.crash trivial
    next => exact Moves.pure ()
  next => exact Moves.pure ()

theorem fixes_requeueSnapshot (env : Env) (pod : FuncPod) :
    Fixes metering (requeueSnapshot env pod) := by
  unfold requeueSnapshot
  split
  next =>
    refine Moves.bind Moves.get fun s => ?_
    split
    next => exact Moves.modify fun _ => metering_removePendingSnapshot _ _
    next =>
      refine Moves.bind (fixes_addSnapshotTask env _ _) fun _ => ?_
      exact Moves.modify fun _ => metering_removePendingSnapshot _ _
  next => exact Moves.pure ()

/-- The deletion of a snapshot pod closes its session. -/
theorem removePod_metering (env : Env) {pod : FuncPod} (hpod : pod.createType = .snapshot)
    (s : SchedulerHandler) :
    (removePod env pod).wp (fun _ t => t.metering = s.metering.ended pod.podKey env.now)
      (fun _ t => t.metering = s.metering.ended pod.podKey env.now) (fun _ => True) s := by
  have hclose : (s.closePod env pod).metering = s.metering.ended pod.podKey env.now := by
    unfold closePod
    rw [if_pos hpod]
    exact metering_endSnapshotPodBilling env pod.podKey
  have hrest : Fixes metering (do
      untrack pod.podKey
      noteFailedPod env pod
      requeueSnapshot env pod
      modify (·.popIdle pod.podKey)
      removePodFromNode pod
      modify (·.modifyFunc pod.funcKey (·.removePod pod.podKey)) : SchedM Unit) := by
    refine Moves.bind ?_ fun _ => Moves.bind (fixes_noteFailedPod env pod) fun _ =>
      Moves.bind (fixes_requeueSnapshot env pod)
      fun _ => Moves.bind (Moves.modify fun _ => rfl) fun _ =>
      Moves.bind ?_ fun _ => Moves.modify fun _ => rfl
    · refine Moves.bind Moves.get fun s => ?_
      split
      next => exact Moves.crash trivial
      next => exact Moves.modify fun _ => rfl
    · refine Moves.bind Moves.get fun s => ?_
      split
      next => exact Moves.pure ()
      next =>
        refine Moves.bind (Moves.lift fun _ _ => trivial) fun _ => ?_
        exact Moves.modify fun _ => rfl
  unfold removePod
  rw [wp_bind, wp_modify]
  exact wp_mono (hrest _) (fun _ _ h => h.trans hclose) (fun _ _ h => h.trans hclose) fun _ h => h

/-! ## The ticks of one session -/

/-- The ticks of a session that is open: a start tick, then periodic ones. -/
def Running (ticks : List UsageTick) : Prop :=
  ∃ first l, ticks = first :: l ∧ first.tickType = .start ∧ ∀ t ∈ l, t.tickType = .periodic

/-- The ticks of a session that has been closed: a final tick at the end. -/
def Finished (ticks : List UsageTick) : Prop :=
  ∃ l last, ticks = l ++ [last] ∧ Running l ∧ last.tickType = .final

/-- One start tick, and nothing after a final tick. -/
structure OneSession (ticks : List UsageTick) : Prop where
  /-- there is exactly one start tick -/
  start : (ticks.filter fun t => t.tickType = .start).length = 1
  /-- there is at most one final tick -/
  final : (ticks.filter fun t => t.tickType = .final).length ≤ 1
  /-- a final tick is the last one -/
  last : ∀ l t l', ticks = l ++ t :: l' → t.tickType = .final → l' = []

namespace Running

variable {ticks new : List UsageTick}

theorem append (h : Running ticks) (hnew : ∀ t ∈ new, t.tickType = .periodic) :
    Running (ticks ++ new) := by
  obtain ⟨first, l, rfl, hfirst, hl⟩ := h
  refine ⟨first, l ++ new, rfl, hfirst, fun t ht => ?_⟩
  exact (List.mem_append.mp ht).elim (hl t) (hnew t)

theorem no_final (h : Running ticks) : ∀ t ∈ ticks, t.tickType ≠ .final := by
  obtain ⟨first, l, rfl, hfirst, hl⟩ := h
  refine List.forall_mem_cons.mpr ⟨?_, fun t ht => ?_⟩
  · rw [hfirst]
    decide
  · rw [hl t ht]
    decide

theorem starts (h : Running ticks) : (ticks.filter fun t => t.tickType = .start).length = 1 := by
  obtain ⟨first, l, rfl, hfirst, hl⟩ := h
  have hnone : (l.filter fun t => t.tickType = .start) = [] := by
    refine List.filter_eq_nil_iff.mpr fun t ht => ?_
    rw [hl t ht]
    decide
  rw [List.filter_cons, if_pos (decide_eq_true hfirst), hnone]
  rfl

theorem finals (h : Running ticks) : (ticks.filter fun t => t.tickType = .final) = [] := by
  refine List.filter_eq_nil_iff.mpr fun t ht => ?_
  rw [decide_eq_true_iff]
  exact h.no_final t ht

theorem oneSession (h : Running ticks) : OneSession ticks where
  start := h.starts
  final := by
    rw [h.finals]
    exact Nat.zero_le 1
  last l t l' hticks ht := by
    refine absurd ht (h.no_final t ?_)
    rw [hticks]
    exact List.mem_append_right l List.mem_cons_self

end Running

theorem Finished.oneSession {ticks : List UsageTick} (h : Finished ticks) : OneSession ticks := by
  obtain ⟨l, last, rfl, hl, hlast⟩ := h
  refine ⟨?_, ?_, fun l₁ t l₂ hticks ht => ?_⟩
  · have hnot : ¬ (decide (last.tickType = .start)) = true := by
      rw [hlast]
      decide
    rw [List.filter_append, List.length_append, hl.starts, List.filter_cons, if_neg hnot]
    rfl
  · rw [List.filter_append, hl.finals, List.nil_append]
    exact List.length_filter_le _ [last]
  · rcases List.eq_nil_or_concat l₂ with hnil | ⟨l₃, t', rfl⟩
    · exact hnil
    · -- then the final tick lies among the ticks before the last one
      rw [List.concat_eq_append, ← List.cons_append, ← List.append_assoc] at hticks
      have hmem : t ∈ l := by
        rw [(List.append_inj' hticks rfl).1]
        exact List.mem_append_right l₁ List.mem_cons_self
      exact absurd ht (hl.no_final t hmem)

/-! ## Runs -/

/-- Where the pod is in its life. -/
inductive PodPhase where
  | absent | live | gone
  deriving DecidableEq

/-- An event of the pod, or a periodic tick. -/
inductive SnapshotOp where
  | added (pod : FuncPod)
  | modified (pod : FuncPod)
  | deleted (pod : FuncPod)
  | tick

/-- The events of a snapshot pod come in their order. -/
def SnapshotOp.Fits (key : String) (phase : PodPhase) : SnapshotOp → Prop
  | .added pod => phase = .absent ∧ pod.podKey = key ∧ pod.createType = .snapshot
  | .modified pod => phase = .live ∧ pod.podKey = key ∧ pod.createType = .snapshot
  | .deleted pod => phase = .live ∧ pod.podKey = key ∧ pod.createType = .snapshot
  | .tick => True

instance (key : String) (phase : PodPhase) : (op : SnapshotOp) → Decidable (op.Fits key phase)
  | .added _ => inferInstanceAs (Decidable (_ ∧ _ ∧ _))
  | .modified _ => inferInstanceAs (Decidable (_ ∧ _ ∧ _))
  | .deleted _ => inferInstanceAs (Decidable (_ ∧ _ ∧ _))
  | .tick => inferInstanceAs (Decidable True)

/-- The scheduler and what has happened to the pod. -/
structure SnapshotRun where
  /-- the scheduler -/
  sched : SchedulerHandler
  /-- the last session before the run -/
  base : ℕ
  /-- the time of the last step -/
  now : ℕ := 0
  /-- where the pod is in its life -/
  phase : PodPhase := .absent
  /-- was the pod to be billed when it was added? -/
  billed : Bool := false
  /-- when the pod was first reported as snapshoted -/
  snapshotedAt : Option ℕ := none
  /-- when the pod was removed -/
  removedAt : Option ℕ := none
  /-- has a tick or the removal of the billed pod come later than that report? -/
  late : Bool := false

namespace SnapshotRun

variable {key : String} {x y : SnapshotRun} {env : Env} {pod : FuncPod}

/-- When the pod was first reported as snapshoted, after one more report. -/
def reported (x : SnapshotRun) (env : Env) (pod : FuncPod) : Option ℕ :=
  if x.snapshotedAt = none ∧ pod.state = .snapshoted then some env.now else x.snapshotedAt

/-- Is a tick or a removal too late now? -/
def exceeds (x : SnapshotRun) (env : Env) : Bool :=
  x.billed && x.phase == .live && x.snapshotedAt.any fun a => a < env.now

/-- One step. -/
def next (x : SnapshotRun) (c : Env × SnapshotOp) : Option SnapshotRun :=
  match c.2 with
  | .added pod => (addPod c.1 pod x.sched).state?.map fun s =>
    { x with
      sched := s, now := c.1.now, phase := .live
      billed := x.sched.bills pod
      snapshotedAt := x.reported c.1 pod }
  | .modified pod => (updatePod c.1 pod x.sched).state?.map fun s =>
    { x with sched := s, now := c.1.now, snapshotedAt := x.reported c.1 pod }
  | .deleted pod => (removePod c.1 pod x.sched).state?.map fun s =>
    { x with
      sched := s, now := c.1.now, phase := .gone
      snapshotedAt := x.reported c.1 pod
      removedAt := some c.1.now
      late := x.late || x.exceeds c.1 }
  | .tick => some
    { x with
      sched := x.sched.emitPeriodicBillingTicks c.1, now := c.1.now
      late := x.late || x.exceeds c.1 }

/-- Time does not go back, and the events of the pod come in their order. -/
def Ok (key : String) (x : SnapshotRun) (c : Env × SnapshotOp) : Prop :=
  x.now ≤ c.1.now ∧ c.2.Fits key x.phase

instance (key : String) (x : SnapshotRun) (c : Env × SnapshotOp) : Decidable (Ok key x c) :=
  inferInstanceAs (Decidable (_ ∧ _))

/-- The pod has not arrived, and the open sessions are those of other pods. -/
structure Start (key : String) (x : SnapshotRun) : Prop where
  /-- nothing has been sent -/
  out : x.sched.out = []
  /-- the pod has no session -/
  unbilled : x.sched.snapshotBillingSessions[key]? = none
  /-- the sessions of other pods are from before -/
  others : ∀ (k : String) (c : BillingSession),
    x.sched.snapshotBillingSessions[k]? = some c → c.sessionId ≤ x.base
  /-- the last session before the run -/
  base : x.base = x.sched.lastSession
  /-- nothing has happened to the pod -/
  fresh : x.phase = .absent ∧ x.billed = false ∧ x.snapshotedAt = none ∧ x.removedAt = none ∧
    x.late = false

/-- What is metered. -/
abbrev metering (x : SnapshotRun) : Metering := x.sched.metering

/-- The ticks of the pod: those of the sessions that were opened in the run. -/
def ticks (x : SnapshotRun) : List UsageTick := x.metering.ticksAfter x.base

/-- **The promise about a state.** The pod has been billed in one session, and no interval
extends past the first report that the snapshot is done or past the removal of the pod. -/
structure StopsWithSnapshot (x : SnapshotRun) : Prop where
  /-- one session -/
  session : OneSession x.ticks
  /-- nothing past the snapshot -/
  snapshot : ∀ a, x.snapshotedAt = some a → ∀ t ∈ x.ticks, t.tickTime ≤ a
  /-- nothing past the removal -/
  removal : ∀ a, x.removedAt = some a → ∀ t ∈ x.ticks, t.tickTime ≤ a

/-- The session of the pod is open. -/
structure IsOpen (key : String) (x : SnapshotRun) (c : BillingSession) : Prop where
  /-- billing is on -/
  enabled : x.metering.enabled = true
  /-- it is kept under the key of the pod -/
  session : x.metering.sessions[key]? = some c
  /-- it was opened in the run -/
  fresh : x.base < c.sessionId
  /-- it has not been billed ahead -/
  behind : c.lastTickTime ≤ x.now
  /-- it has not been closed -/
  running : Running x.ticks
  /-- it has not been billed past the snapshot, as long as nothing came late -/
  onTime : x.late = false → ∀ a, x.snapshotedAt = some a → c.lastTickTime ≤ a

/-- What holds in every state of a run. -/
structure Inv (key : String) (x : SnapshotRun) : Prop where
  /-- ids are drawn in order -/
  base : x.base ≤ x.metering.lastSession
  /-- the sessions of other pods are from before -/
  others : ∀ (k : String) (c : BillingSession), k ≠ key →
    x.metering.sessions[k]? = some c → c.sessionId ≤ x.base
  /-- the report is not in the future -/
  reported : ∀ a, x.snapshotedAt = some a → a ≤ x.now
  /-- no tick is in the future -/
  before : ∀ t ∈ x.ticks, t.tickTime ≤ x.now
  /-- nothing was billed past the snapshot, as long as nothing came late -/
  onTime : x.late = false → ∀ a, x.snapshotedAt = some a → ∀ t ∈ x.ticks, t.tickTime ≤ a
  /-- what came late was billed -/
  late : x.late = true → ∃ a, x.snapshotedAt = some a ∧ ∃ t ∈ x.ticks, a < t.tickTime
  /-- a pod that is not billed has no ticks -/
  unbilled : x.billed = false → x.ticks = [] ∧ x.metering.sessions[key]? = none
  /-- before the pod arrives -/
  absent : x.phase = .absent → x.billed = false ∧ x.snapshotedAt = none ∧ x.removedAt = none
  /-- while the pod is there -/
  live : x.phase = .live → x.removedAt = none ∧ (x.billed = true → ∃ c, x.IsOpen key c)
  /-- after the pod was removed -/
  gone : x.phase = .gone → x.metering.sessions[key]? = none ∧
    (x.billed = true → Finished x.ticks) ∧ ∃ r, x.removedAt = some r ∧ ∀ t ∈ x.ticks, t.tickTime ≤ r

/-! ## Steps -/

theorem exceeds_iff : x.exceeds env = true ↔
    (x.billed = true ∧ x.phase = .live) ∧ ∃ a, x.snapshotedAt = some a ∧ a < env.now := by
  unfold exceeds
  rw [Bool.and_eq_true, Bool.and_eq_true, beq_iff_eq]
  refine and_congr_right fun _ => ?_
  rcases x.snapshotedAt with _ | a
  · simp
  · simp

theorem reported_cases (x : SnapshotRun) (env : Env) (pod : FuncPod) :
    x.reported env pod = x.snapshotedAt ∨
      x.snapshotedAt = none ∧ x.reported env pod = some env.now := by
  unfold reported
  split
  next h => exact .inr ⟨h.1, rfl⟩
  next => exact .inl rfl

theorem reported_of_some {a : ℕ} (h : x.snapshotedAt = some a) : x.reported env pod = some a := by
  rcases reported_cases x env pod with heq | ⟨hnone, -⟩
  · exact heq.trans h
  · rw [hnone] at h
    cases h

namespace Inv

/-- After one more report, the first one is still not in the future. -/
theorem reported_le (h : Inv key x) (hnow : x.now ≤ env.now) {a : ℕ}
    (ha : x.reported env pod = some a) : a ≤ env.now := by
  rcases reported_cases x env pod with heq | ⟨-, heq⟩
  · exact (h.reported a (heq ▸ ha)).trans hnow
  · exact (Option.some.inj (heq.symm.trans ha)).symm.le

/-- What has come late has been billed. -/
theorem late_of_ticks_nil (h : Inv key x) (hnil : x.ticks = []) : x.late = false := by
  by_contra hlate
  rw [Bool.not_eq_false] at hlate
  obtain ⟨-, -, t, ht, -⟩ := h.late hlate
  rw [hnil] at ht
  cases ht

/-- A report of the pod. -/
theorem modified (h : Inv key x) (hnow : x.now ≤ env.now) (hlive : x.phase = .live)
    {s : SchedulerHandler} (hs : s.metering = x.metering) :
    Inv key { x with sched := s, now := env.now, snapshotedAt := x.reported env pod } := by
  set y : SnapshotRun := { x with sched := s, now := env.now, snapshotedAt := x.reported env pod }
    with hy
  have hm : y.metering = x.metering := hs
  have hticks : y.ticks = x.ticks := by
    unfold ticks
    rw [hm]
  have hbefore : ∀ t ∈ y.ticks, t.tickTime ≤ env.now := fun t ht =>
    (h.before t (hticks ▸ ht)).trans hnow
  refine ⟨?_, ?_, ?_, hbefore, ?_, ?_, ?_, ?_, ?_, ?_⟩
  · rw [hm]
    exact h.base
  · rw [hm]
    exact h.others
  · exact fun a ha => h.reported_le hnow ha
  · intro hlate a ha t ht
    rcases reported_cases x env pod with heq | ⟨-, heq⟩
    · exact h.onTime hlate a (heq ▸ ha) t (hticks ▸ ht)
    · rw [← Option.some.inj (heq.symm.trans ha)]
      exact hbefore t ht
  · intro hlate
    obtain ⟨a, ha, t, ht, hat⟩ := h.late hlate
    exact ⟨a, reported_of_some ha, t, hticks ▸ ht, hat⟩
  · intro hbilled
    rw [hticks, hm]
    exact h.unbilled hbilled
  · exact fun habsent => absurd (hlive.symm.trans habsent) (by decide)
  · refine fun _ => ⟨(h.live hlive).1, fun hbilled => ?_⟩
    obtain ⟨c, hc⟩ := (h.live hlive).2 hbilled
    refine ⟨c, ?_, ?_, hc.fresh, hc.behind.trans hnow, ?_, fun hlate a ha => ?_⟩
    · rw [hm]
      exact hc.enabled
    · rw [hm]
      exact hc.session
    · rw [hticks]
      exact hc.running
    · rcases reported_cases x env pod with heq | ⟨-, heq⟩
      · exact hc.onTime hlate a (heq ▸ ha)
      · rw [← Option.some.inj (heq.symm.trans ha)]
        exact hc.behind.trans hnow
  · exact fun hgone => absurd (hlive.symm.trans hgone) (by decide)

/-- The pod arrives. -/
theorem added (h : Inv key x) (hnow : x.now ≤ env.now) (habsent : x.phase = .absent)
    (hkey : pod.podKey = key) {s : SchedulerHandler}
    (hs : s.metering = x.sched.meteringAdded env pod) :
    Inv key { x with
      sched := s, now := env.now, phase := .live, billed := x.sched.bills pod
      snapshotedAt := x.reported env pod } := by
  set y : SnapshotRun := { x with
      sched := s, now := env.now, phase := .live, billed := x.sched.bills pod
      snapshotedAt := x.reported env pod } with hy
  obtain ⟨hunbilled, hsnapshoted, hremoved⟩ := h.absent habsent
  obtain ⟨hnil, hnone⟩ := h.unbilled hunbilled
  have hreported : ∀ a, y.snapshotedAt = some a → a ≤ env.now := fun a ha => h.reported_le hnow ha
  have hlate : y.late ≠ true := fun hlate => by
    rw [show y.late = x.late from rfl, h.late_of_ticks_nil hnil] at hlate
    cases hlate
  rcases hbills : x.sched.bills pod with _ | _
  · have hm : y.metering = x.metering := by
      rw [show y.metering = s.metering from rfl, hs]
      unfold meteringAdded
      rw [hbills, if_neg Bool.false_ne_true]
    have hticks : y.ticks = [] := by
      rw [← hnil]
      unfold ticks
      rw [hm]
    have hempty : ∀ t, t ∉ y.ticks := fun t ht => by
      rw [hticks] at ht
      cases ht
    exact
      { base := hm ▸ h.base
        others := hm ▸ h.others
        reported := hreported
        before := fun t ht => absurd ht (hempty t)
        onTime := fun _ _ _ t ht => absurd ht (hempty t)
        late := fun h => absurd h hlate
        unbilled := fun _ => ⟨hticks, hm ▸ hnone⟩
        absent := nofun
        live := fun _ => ⟨hremoved, fun hb => absurd (hbills.symm.trans hb) Bool.false_ne_true⟩
        gone := nofun }
  · have hm : y.metering = x.metering.opened key (sessionOf env pod (x.metering.lastSession + 1))
        env.now := by
      rw [show y.metering = s.metering from rfl, hs]
      unfold meteringAdded
      rw [hbills, if_pos rfl, hkey]
      rfl
    have hfresh : x.base < x.metering.lastSession + 1 := Nat.lt_succ_of_le h.base
    have hticks : y.ticks =
        [⟨sessionOf env pod (x.metering.lastSession + 1), env.now, 0, .start, .snapshot⟩] := by
      unfold ticks Metering.ticksAfter
      rw [hm]
      unfold Metering.opened
      rw [List.filter_append]
      rw [show (x.metering.ticks.filter
        fun t => decide (y.base < t.session.sessionId)) = [] from hnil]
      exact List.filter_eq_self.mpr (List.forall_mem_singleton.mpr (decide_eq_true hfresh))
    have htime : ∀ t ∈ y.ticks, t.tickTime ≤ env.now := by
      rw [hticks]
      exact List.forall_mem_singleton.mpr (Nat.le_refl _)
    have hnone' : y.snapshotedAt = none := by
      show x.reported env pod = none
      unfold SnapshotRun.reported
      rw [hsnapshoted]
      refine if_neg fun hstate => ?_
      unfold bills at hbills
      rw [hstate.2] at hbills
      simp [isSnapshotPodFinished] at hbills
    have hnot : ∀ a, y.snapshotedAt ≠ some a := fun a ha => by
      rw [hnone'] at ha
      cases ha
    have hopen : y.IsOpen key (sessionOf env pod (x.metering.lastSession + 1)) := by
      refine ⟨?_, ?_, hfresh, Nat.le_refl _, ?_, fun _ a ha => absurd ha (hnot a)⟩
      · rw [hm]
        unfold bills at hbills
        rw [Bool.and_eq_true, Bool.and_eq_true, Bool.and_eq_true, Bool.and_eq_true] at hbills
        exact hbills.1.1.1.1
      · rw [hm]
        exact BTreeMap.get_insert_self ..
      · rw [hticks]
        exact ⟨_, [], rfl, rfl, nofun⟩
    refine
      { base := ?base
        others := fun k c hk hget => ?others
        reported := hreported
        before := htime
        onTime := fun _ a ha => absurd ha (hnot a)
        late := fun h => absurd h hlate
        unbilled := fun hb => absurd (hbills.symm.trans hb) (by decide)
        absent := nofun
        live := fun _ => ⟨hremoved, fun _ => ⟨_, hopen⟩⟩
        gone := nofun }
    case base =>
      rw [hm]
      exact Nat.le_succ_of_le h.base
    case others =>
      rw [hm] at hget
      unfold Metering.opened at hget
      dsimp only at hget
      rw [BTreeMap.get_insert_of_ne hk] at hget
      exact h.others k c hk hget

/-- Before the pod has a session and after it is closed. -/
theorem no_session (h : Inv key x) (hopen : ¬ (x.billed = true ∧ x.phase = .live)) :
    x.metering.sessions[key]? = none := by
  rcases hbilled : x.billed with _ | _
  · exact (h.unbilled hbilled).2
  · rcases hphase : x.phase with _ | _ | _
    · exact (h.unbilled (h.absent hphase).1).2
    · exact absurd ⟨hbilled, hphase⟩ hopen
    · exact (h.gone hphase).1

/-- The pod is removed. -/
theorem deleted (h : Inv key x) (hnow : x.now ≤ env.now) (hlive : x.phase = .live)
    {s : SchedulerHandler} (hs : s.metering = x.metering.ended key env.now) :
    Inv key { x with
      sched := s, now := env.now, phase := .gone
      snapshotedAt := x.reported env pod
      removedAt := some env.now
      late := x.late || x.exceeds env } := by
  set y : SnapshotRun := { x with
      sched := s, now := env.now, phase := .gone
      snapshotedAt := x.reported env pod
      removedAt := some env.now
      late := x.late || x.exceeds env } with hy
  have hm : y.metering = x.metering.ended key env.now := hs
  have hreported : ∀ a, y.snapshotedAt = some a → a ≤ env.now := fun a ha => h.reported_le hnow ha
  rcases hbilled : x.billed with _ | _
  · obtain ⟨hnil, hnone⟩ := h.unbilled hbilled
    have hsame : y.metering = x.metering := hm.trans (Metering.ended_none hnone)
    have hticks : y.ticks = [] := by
      rw [← hnil]
      unfold ticks
      rw [hsame]
    have hempty : ∀ t, t ∉ y.ticks := fun t ht => by
      rw [hticks] at ht
      cases ht
    have hlate : y.late = false := by
      show (x.late || x.exceeds env) = false
      unfold exceeds
      rw [h.late_of_ticks_nil hnil, hbilled]
      rfl
    exact
      { base := hsame ▸ h.base
        others := hsame ▸ h.others
        reported := hreported
        before := fun t ht => absurd ht (hempty t)
        onTime := fun _ _ _ t ht => absurd ht (hempty t)
        late := fun hl => absurd (hlate.symm.trans hl) Bool.false_ne_true
        unbilled := fun _ => ⟨hticks, hsame ▸ hnone⟩
        absent := nofun
        live := nofun
        gone := fun _ => ⟨hsame ▸ hnone, fun hb => absurd (hbilled.symm.trans hb) Bool.false_ne_true,
          env.now, rfl, fun t ht => absurd ht (hempty t)⟩ }
  · obtain ⟨c, hc⟩ := (h.live hlive).2 hbilled
    have hended := Metering.ended_some hc.enabled hc.session env.now
    have hticks : y.ticks =
        x.ticks ++ [⟨c, env.now, env.now - c.lastTickTime, .final, .snapshot⟩] := by
      unfold ticks Metering.ticksAfter
      rw [hm, hended, List.filter_append]
      congr 1
      exact List.filter_eq_self.mpr (List.forall_mem_singleton.mpr (decide_eq_true hc.fresh))
    have hnone : y.metering.sessions[key]? = none := by
      rw [hm, hended]
      exact (BTreeMap.get_erase ..).trans (if_pos rfl)
    have htime : ∀ t ∈ y.ticks, t.tickTime ≤ env.now := by
      rw [hticks]
      refine List.forall_mem_append.mpr ⟨fun t ht => (h.before t ht).trans hnow, ?_⟩
      exact List.forall_mem_singleton.mpr (Nat.le_refl _)
    refine
      { base := ?base
        others := fun k c' hk hget => ?others
        reported := hreported
        before := htime
        onTime := fun hlate a ha t ht => ?onTime
        late := fun hlate => ?late
        unbilled := fun hb => absurd (hbilled.symm.trans hb) (by decide)
        absent := nofun
        live := nofun
        gone := fun _ => ⟨hnone, fun _ => ⟨_, _, hticks, hc.running, rfl⟩, env.now, rfl, htime⟩ }
    case base =>
      rw [hm, hended]
      exact h.base
    case others =>
      rw [hm, hended] at hget
      dsimp only at hget
      rw [BTreeMap.get_erase_of_ne hk] at hget
      exact h.others k c' hk hget
    case onTime =>
      obtain ⟨hx, hexceeds⟩ := Bool.or_eq_false_iff.mp hlate
      rcases reported_cases x env pod with heq | ⟨-, heq⟩
      · have hle : env.now ≤ a := by
          by_contra hlt
          rw [exceeds_iff.mpr ⟨⟨hbilled, hlive⟩, a, heq ▸ ha, Nat.lt_of_not_le hlt⟩] at hexceeds
          cases hexceeds
        exact (htime t ht).trans hle
      · rw [← Option.some.inj (heq.symm.trans ha)]
        exact htime t ht
    case late =>
      rcases Bool.or_eq_true_iff.mp hlate with hx | hexceeds
      · obtain ⟨a, ha, t, ht, hat⟩ := h.late hx
        refine ⟨a, reported_of_some ha, t, ?_, hat⟩
        rw [hticks]
        exact List.mem_append_left _ ht
      · obtain ⟨-, a, ha, hat⟩ := exceeds_iff.mp hexceeds
        refine ⟨a, reported_of_some ha,
          ⟨c, env.now, env.now - c.lastTickTime, .final, .snapshot⟩, ?_, hat⟩
        rw [hticks]
        exact List.mem_append_right _ List.mem_cons_self

/-- The periodic ticks of the pod are those of its session. -/
theorem mem_due (h : Inv key x) {now : ℕ} {t : UsageTick} :
    t ∈ (x.metering.due now).filter (fun t => x.base < t.session.sessionId) ↔
      ∃ c : BillingSession, x.metering.sessions[key]? = some c ∧ x.base < c.sessionId ∧
        c.lastTickTime < now ∧ t = ⟨c, now, now - c.lastTickTime, .periodic, .snapshot⟩ := by
  rw [List.mem_filter, Metering.mem_due, decide_eq_true_iff]
  constructor
  · rintro ⟨⟨k, c, hget, hdue, rfl⟩, hfresh⟩
    by_cases hk : k = key
    · exact ⟨c, hk ▸ hget, hfresh, hdue, rfl⟩
    · exact absurd (h.others k c hk hget) (Nat.not_le_of_lt hfresh)
  · rintro ⟨c, hget, hfresh, hdue, rfl⟩
    exact ⟨⟨key, c, hget, hdue, rfl⟩, hfresh⟩

theorem ticked_base (h : Inv key x) : x.base ≤ (x.metering.ticked env).lastSession := by
  rw [Metering.ticked_lastSession]
  exact h.base

theorem ticked_others (h : Inv key x) (k : String) (c : BillingSession) (hk : k ≠ key)
    (hget : (x.metering.ticked env).sessions[k]? = some c) : c.sessionId ≤ x.base := by
  obtain ⟨c', hc', hid⟩ := Metering.ticked_sessionId hget
  rw [← hid]
  exact h.others k c' hk hc'

/-- Time passes and nothing of the pod is billed. -/
theorem ticked_closed (h : Inv key x) (hnow : x.now ≤ env.now)
    (hopen : ¬ (x.billed = true ∧ x.phase = .live)) {s : SchedulerHandler}
    (hs : s.metering = x.metering.ticked env) :
    Inv key { x with sched := s, now := env.now, late := x.late || x.exceeds env } := by
  have hlate : (x.late || x.exceeds env) = x.late := by
    have hexceeds : x.exceeds env = false := by
      rw [Bool.eq_false_iff]
      exact fun h => hopen (exceeds_iff.mp h).1
    rw [hexceeds, Bool.or_false]
  rw [hlate]
  set y : SnapshotRun := { x with sched := s, now := env.now } with hy
  have hm : y.metering = x.metering.ticked env := hs
  have hsession := h.no_session hopen
  have hnone : y.metering.sessions[key]? = none := by
    rw [hm]
    rcases hget : (x.metering.ticked env).sessions[key]? with _ | c
    · rfl
    · obtain ⟨c', hc', -⟩ := Metering.ticked_sessionId hget
      rw [hsession] at hc'
      cases hc'
  have hticks : y.ticks = x.ticks := by
    unfold ticks Metering.ticksAfter
    rw [hm]
    rcases henabled : x.metering.enabled with _ | _
    · rw [Metering.ticked_disabled henabled]
    · rw [Metering.ticked_ticks henabled, List.filter_append]
      have hempty : (x.metering.due env.now).filter
        (fun t => x.base < t.session.sessionId) = [] := by
        refine List.eq_nil_iff_forall_not_mem.mpr fun t ht => ?_
        obtain ⟨c, hget, -⟩ := h.mem_due.mp ht
        rw [hsession] at hget
        cases hget
      exact (congrArg _ hempty).trans (List.append_nil _)
  exact
    { base := hm ▸ h.ticked_base
      others := fun k c hk hget => h.ticked_others k c hk (hm ▸ hget)
      reported := fun a ha => (h.reported a ha).trans hnow
      before := fun t ht => (h.before t (hticks ▸ ht)).trans hnow
      onTime := hticks ▸ h.onTime
      late := hticks ▸ h.late
      unbilled := fun hb => ⟨hticks ▸ (h.unbilled hb).1, hnone⟩
      absent := h.absent
      live := fun hlive => ⟨(h.live hlive).1, fun hb => absurd ⟨hb, hlive⟩ hopen⟩
      gone := fun hgone => ⟨hnone, hticks ▸ (h.gone hgone).2⟩ }

/-- The open session is billed up to now. -/
theorem ticked_open (h : Inv key x) (hnow : x.now ≤ env.now) (hbilled : x.billed = true)
    (hlive : x.phase = .live) {s : SchedulerHandler} (hs : s.metering = x.metering.ticked env) :
    Inv key { x with sched := s, now := env.now, late := x.late || x.exceeds env } := by
  set y : SnapshotRun := { x with sched := s, now := env.now, late := x.late || x.exceeds env } with hy
  have hm : y.metering = x.metering.ticked env := hs
  obtain ⟨c, hc⟩ := (h.live hlive).2 hbilled
  obtain ⟨new, hnew, hticks⟩ : ∃ new : List UsageTick, (∀ t, t ∈ new ↔ ∃ c : BillingSession,
      x.metering.sessions[key]? = some c ∧ x.base < c.sessionId ∧ c.lastTickTime < env.now ∧
        t = ⟨c, env.now, env.now - c.lastTickTime, .periodic, .snapshot⟩) ∧
      y.ticks = x.ticks ++ new := by
    refine ⟨_, fun t => h.mem_due, ?_⟩
    unfold ticks Metering.ticksAfter
    rw [hm, Metering.ticked_ticks hc.enabled, List.filter_append]
  have htime : ∀ t ∈ new, t.tickTime = env.now ∧ t.tickType = .periodic := by
    intro t ht
    obtain ⟨-, -, -, -, rfl⟩ := (hnew t).mp ht
    exact ⟨rfl, rfl⟩
  have hmem : ∀ t, t ∈ y.ticks ↔ t ∈ x.ticks ∨ t ∈ new := fun t => by
    rw [hticks, List.mem_append]
  have hbefore : ∀ t ∈ y.ticks, t.tickTime ≤ env.now := fun t ht =>
    ((hmem t).mp ht).elim (fun h' => (h.before t h').trans hnow) fun h' => (htime t h').1.le
  have hfits : y.late = false → ∀ a, x.snapshotedAt = some a → env.now ≤ a := by
    intro hlate a ha
    by_contra hlt
    have hexceeds : x.exceeds env = true :=
      exceeds_iff.mpr ⟨⟨hbilled, hlive⟩, a, ha, Nat.lt_of_not_le hlt⟩
    rw [show y.late = (x.late || x.exceeds env) from rfl, hexceeds, Bool.or_true] at hlate
    cases hlate
  have hopen : y.IsOpen key (Metering.billedUpTo env.now c) := by
    refine ⟨?_, ?_, ?_, ?_, ?_, ?_⟩
    · rw [hm, Metering.ticked_enabled]
      exact hc.enabled
    · rw [hm, Metering.get_ticked_sessions hc.enabled, hc.session, Option.map_some]
    · rw [Metering.billedUpTo_sessionId]
      exact hc.fresh
    · exact (Metering.billedUpTo_lastTickTime (hc.behind.trans hnow)).le
    · rw [hticks]
      exact hc.running.append fun t ht => (htime t ht).2
    · intro hlate a ha
      rw [Metering.billedUpTo_lastTickTime (hc.behind.trans hnow)]
      exact hfits hlate a ha
  refine
    { base := hm ▸ h.ticked_base
      others := fun k c' hk hget => h.ticked_others k c' hk (hm ▸ hget)
      reported := fun a ha => (h.reported a ha).trans hnow
      before := hbefore
      onTime := fun hlate a ha t ht => (hbefore t ht).trans (hfits hlate a ha)
      late := fun hlate => ?late
      unbilled := fun hb => absurd (hbilled.symm.trans hb) (by decide)
      absent := h.absent
      live := fun _ => ⟨(h.live hlive).1, fun _ => ⟨_, hopen⟩⟩
      gone := fun hgone => absurd (hlive.symm.trans hgone) (by decide) }
  case late =>
    rcases hx : x.late with _ | _
    · -- the first one that is late finds time to bill
      rw [show y.late = (x.late || x.exceeds env) from rfl, hx, Bool.false_or] at hlate
      obtain ⟨-, a, ha, hat⟩ := exceeds_iff.mp hlate
      refine ⟨a, ha, ⟨c, env.now, env.now - c.lastTickTime, .periodic, .snapshot⟩, ?_, hat⟩
      rw [hmem, hnew]
      exact .inr ⟨c, hc.session, hc.fresh, (hc.onTime hx a ha).trans_lt hat, rfl⟩
    · obtain ⟨a, ha, t, ht, hat⟩ := h.late hx
      exact ⟨a, ha, t, (hmem t).mpr (.inl ht), hat⟩

theorem start (h : Start key x) : Inv key x := by
  obtain ⟨hphase, hbilled, hsnapshoted, hremoved, hlate⟩ := h.fresh
  have hticks : x.ticks = [] := by
    unfold ticks Metering.ticksAfter SnapshotRun.metering SchedulerHandler.metering
    rw [h.out]
    rfl
  have hempty : ∀ t, t ∉ x.ticks := fun t ht => by
    rw [hticks] at ht
    cases ht
  exact
    { base := h.base.le
      others := fun k c _ hget => h.others k c hget
      reported := fun a ha => nomatch hsnapshoted.symm.trans ha
      before := fun t ht => absurd ht (hempty t)
      onTime := fun _ _ _ t ht => absurd ht (hempty t)
      late := fun hl => nomatch hlate.symm.trans hl
      unbilled := fun _ => ⟨hticks, h.unbilled⟩
      absent := fun _ => ⟨hbilled, hsnapshoted, hremoved⟩
      live := fun hlive => nomatch hphase.symm.trans hlive
      gone := fun hgone => nomatch hphase.symm.trans hgone }

/-- **The step.** -/
theorem next {c : Env × SnapshotOp} (h : Inv key x) (hok : Ok key x c) (hnext : x.next c = some y) :
    Inv key y := by
  obtain ⟨env, op⟩ := c
  obtain ⟨hnow, hfits⟩ := hok
  cases op with
  | added pod =>
    obtain ⟨hphase, hkey, -⟩ := hfits
    obtain ⟨s, hs, rfl⟩ := Option.map_eq_some_iff.mp hnext
    exact h.added hnow hphase hkey
      (wp_state (I := fun t => t.metering = x.sched.meteringAdded env pod)
        (addPod_metering env pod x.sched) hs)
  | modified pod =>
    obtain ⟨s, hs, rfl⟩ := Option.map_eq_some_iff.mp hnext
    exact h.modified hnow hfits.1 ((fixes_updatePod env pod).state hs)
  | deleted pod =>
    obtain ⟨hphase, hkey, htype⟩ := hfits
    obtain ⟨s, hs, rfl⟩ := Option.map_eq_some_iff.mp hnext
    refine h.deleted hnow hphase ?_
    rw [← hkey]
    exact wp_state (I := fun t => t.metering = x.sched.metering.ended pod.podKey env.now)
      (removePod_metering env htype x.sched) hs
  | tick =>
    obtain rfl := Option.some.inj hnext
    by_cases hopen : x.billed = true ∧ x.phase = .live
    · exact h.ticked_open hnow hopen.1 hopen.2 (metering_emitPeriodicBillingTicks env)
    · exact h.ticked_closed hnow hopen (metering_emitPeriodicBillingTicks env)

/-- What is billed stops with the snapshot when nothing comes late. -/
theorem stops_iff (h : Inv key x) (hphase : x.phase ≠ .absent) :
    StopsWithSnapshot x ↔ x.billed = true ∧ x.late = false := by
  constructor
  · intro hstops
    constructor
    · by_contra hbilled
      have hone := hstops.session.start
      rw [(h.unbilled (Bool.not_eq_true _ |>.mp hbilled)).1] at hone
      cases hone
    · by_contra hlate
      obtain ⟨a, ha, t, ht, hat⟩ := h.late (Bool.not_eq_false _ |>.mp hlate)
      exact absurd (hstops.snapshot a ha t ht) (Nat.not_le_of_lt hat)
  · rintro ⟨hbilled, hlate⟩
    have hsession : OneSession x.ticks ∧ ∀ a, x.removedAt = some a →
      ∀ t ∈ x.ticks, t.tickTime ≤ a := by
      rcases hp : x.phase with _ | _ | _
      · exact absurd hp hphase
      · obtain ⟨hremoved, hopen⟩ := h.live hp
        obtain ⟨c, hc⟩ := hopen hbilled
        refine ⟨hc.running.oneSession, fun a ha => ?_⟩
        rw [hremoved] at ha
        cases ha
      · obtain ⟨-, hfinished, r, hr, htimes⟩ := h.gone hp
        refine ⟨(hfinished hbilled).oneSession, fun a ha => ?_⟩
        rw [← Option.some.inj (hr.symm.trans ha)]
        exact htimes
    exact ⟨hsession.1, h.onTime hlate, hsession.2⟩

end Inv

/-- **Billing stops with the snapshot when nothing comes late.** In every run of a snapshot pod
and the periodic ticks, once the pod has arrived, it has been billed in one session that extends
past neither the end of the snapshot nor the removal exactly when it was to be billed and
neither a tick nor its removal came later than the first report that the snapshot is done. -/
theorem stopsWithSnapshot_iff_of_reach (h : Reach next (Start key) (Ok key) x)
    (hphase : x.phase ≠ .absent) :
    StopsWithSnapshot x ↔ x.billed = true ∧ x.late = false :=
  (h.invariant (fun _ => Inv.start) fun _ _ _ hx hok hnext => hx.next hok hnext).stops_iff hphase

end SnapshotRun

namespace Sample

/-- A pod that makes a snapshot of the function. -/
def billedPod (state : PodState) : FuncPod := { pod "1" state with createType := .snapshot }

/-- A scheduler that bills snapshots, before the pod arrives. -/
def billingRun : SnapshotRun where
  sched := { config := { enableSnapshotBilling := true } }
  base := 0

/-- The pod arrives, is billed for a while, has made its snapshot, and then there is one more
tick. -/
def snapshotSteps (last : ℕ) : List (Env × SnapshotOp) :=
  [({}, .added (billedPod .loading)), ({ now := 5 }, .tick),
    ({ now := 10 }, .modified (billedPod .snapshoted)), ({ now := last }, .tick)]

theorem start_billingRun : SnapshotRun.Start (billedPod .loading).podKey billingRun where
  out := rfl
  unbilled := by simp [billingRun]
  others k c h := by simp [billingRun] at h
  base := rfl
  fresh := ⟨rfl, rfl, rfl, rfl, rfl⟩

/-- The run goes on to its end. -/
theorem reach_snapshotSteps (last : ℕ) (p : SnapshotRun → Bool)
    (h : (exec SnapshotRun.next (SnapshotRun.Ok (billedPod .loading).podKey) billingRun
      (snapshotSteps last)).any p = true) :
    ∃ x, Reach SnapshotRun.next (SnapshotRun.Start (billedPod .loading).podKey)
      (SnapshotRun.Ok (billedPod .loading).podKey) x ∧ p x = true := by
  rcases hx : exec SnapshotRun.next (SnapshotRun.Ok (billedPod .loading).podKey) billingRun
    (snapshotSteps last) with _ | x
  · rw [hx] at h
    cases h
  · rw [hx] at h
    exact ⟨x, .of_exec _ _ (.init start_billingRun) hx, h⟩

end Sample

open Sample in
/-- A tick at the time of the report is in order. -/
theorem stopsWithSnapshot_in_time : ∃ x, Reach SnapshotRun.next
    (SnapshotRun.Start (billedPod .loading).podKey) (SnapshotRun.Ok (billedPod .loading).podKey) x ∧
    x.snapshotedAt = some 10 ∧ x.StopsWithSnapshot := by
  obtain ⟨x, hx, hp⟩ := reach_snapshotSteps 10 (fun x =>
    x.phase == .live && x.billed && !x.late && x.snapshotedAt == some 10) (by decide +kernel)
  simp only [Bool.and_eq_true, beq_iff_eq, Bool.not_eq_true'] at hp
  obtain ⟨⟨⟨hphase, hbilled⟩, hlate⟩, hat⟩ := hp
  refine ⟨x, hx, hat, (SnapshotRun.stopsWithSnapshot_iff_of_reach hx ?_).mpr ⟨hbilled, hlate⟩⟩
  rw [hphase]
  decide

open Sample in
/-- A tick after the report bills the time after the snapshot. -/
theorem snapshot_billed_on : ¬ ∀ (key : String) (x : SnapshotRun),
    Reach SnapshotRun.next (SnapshotRun.Start key) (SnapshotRun.Ok key) x →
      x.phase ≠ .absent → x.billed = true → x.StopsWithSnapshot := by
  intro h
  obtain ⟨x, hx, hp⟩ := reach_snapshotSteps 20 (fun x =>
    x.phase == .live && x.billed && x.snapshotedAt == some 10
      && x.ticks.any fun t => t.tickTime == 20) (by decide +kernel)
  simp only [Bool.and_eq_true, beq_iff_eq] at hp
  obtain ⟨⟨⟨hphase, hbilled⟩, hat⟩, hticks⟩ := hp
  obtain ⟨t, ht, htime⟩ := List.any_eq_true.mp hticks
  have hle := (h _ x hx (by rw [hphase]; decide) hbilled).snapshot 10 hat t ht
  rw [beq_iff_eq.mp htime] at hle
  omega

end Inferx
