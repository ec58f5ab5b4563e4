import Inferx.Scheduler.Coherence

/-!
# The idle pool

`IdlePool` says that the idle pool and the worker states agree: the pool holds
the keys of the tracked pods that are idle and ready. About fifteen handlers
write one side or the other. On slots the agreement is `Slot.Agrees`, and
`Act.IdleOk` lists what an act needs to keep it: to take a pod back, the pod has
to be ready; to mark a pod terminating where it stands, it must not be idle; and
so on. `Handler.IdleOk` says the same about the handlers and the state they
start from.
-/

namespace Inferx

open Proc SchedulerHandler

/-! ## Slots -/

/-- The pool lists exactly the idle pods, and idle pods are ready. -/
structure Slot.Agrees (a : Slot) : Prop where
  /-- a key without a pod is not listed -/
  untracked : a.entry = none → a.idle = false
  /-- a pod is listed if and only if it is idle -/
  listed : ∀ pod c, a.entry = some (pod, c) → (a.idle = true ↔ c.state = .idle)
  /-- an idle pod is ready -/
  ready : ∀ pod c, a.entry = some (pod, c) → c.state = .idle → pod.state = .ready

/-- The pod of the slot, if there is one, is ready. -/
def Slot.IsReady (a : Slot) : Prop := ∀ pod c, a.entry = some (pod, c) → pod.state = .ready

/-- The pod of the slot, if there is one, is not idle. -/
def Slot.NotIdle (a : Slot) : Prop := ∀ pod c, a.entry = some (pod, c) → c.state ≠ .idle

/-- What an act needs to keep pool and worker states in agreement. -/
def Act.IdleOk (a : Slot) : Act → Prop
  | .giveBack | .timeout _ | .restore => a.IsReady
  | .mark | .rollback | .granted _ _ _ => a.NotIdle
  | .relist => ∀ pod c, a.entry = some (pod, c) → c.state = .idle
  | .rebuilt new => ∀ pod c, a.entry = some (pod, c) → (∀ g, c.state ≠ .working g) →
    (c.state = .idle ↔ new.state = .ready)
  | _ => True

theorem WorkerCell.new_idle_iff {x : PodState} :
    (WorkerCell.new x).state = .idle ↔ x = .ready := by
  cases x <;> simp [WorkerCell.new]

namespace Slot.Agrees

variable {pod : FuncPod} {c : WorkerCell} {b : Bool}

theorem of_none : Slot.Agrees ⟨none, false⟩ :=
  ⟨fun _ => rfl, fun _ _ h => (nomatch h), fun _ _ h => (nomatch h)⟩

theorem of_some (hlisted : b = true ↔ c.state = .idle) (hready : c.state = .idle → pod.state = .ready) :
    Slot.Agrees ⟨some (pod, c), b⟩ := by
  refine ⟨fun h => (nomatch h), fun pod' c' h => ?_, fun pod' c' h => ?_⟩
  · obtain ⟨rfl, rfl⟩ := Prod.mk.inj (Option.some.inj h)
    exact hlisted
  · obtain ⟨rfl, rfl⟩ := Prod.mk.inj (Option.some.inj h)
    exact hready

/-- A pod that is neither idle nor listed. -/
theorem of_not_idle (hstate : c.state ≠ .idle) (hb : b = false) : Slot.Agrees ⟨some (pod, c), b⟩ :=
  of_some ⟨fun h => absurd (h.symm.trans hb) nofun, fun h => absurd h hstate⟩ fun h => absurd h hstate

/-- A pod that is idle, listed and ready. -/
theorem of_idle (hstate : c.state = .idle) (hready : pod.state = .ready) :
    Slot.Agrees ⟨some (pod, c), true⟩ := of_some ⟨fun _ => hstate, fun _ => rfl⟩ fun _ => hready

theorem listed_iff (h : Slot.Agrees ⟨some (pod, c), b⟩) : b = true ↔ c.state = .idle :=
  h.listed pod c rfl

theorem unlisted (h : Slot.Agrees ⟨some (pod, c), b⟩) (hstate : c.state ≠ .idle) : b = false := by
  rcases b with _ | _
  · rfl
  · exact absurd (h.listed_iff.mp rfl) hstate

/-- **One act.** An act that has what it needs keeps pool and state in
agreement. -/
theorem step {act : Act} {x y : Slot} (h : x.Agrees) (hok : act.IdleOk x) (hstep : Slot.Step act x y) :
    y.Agrees := by
  cases hstep with
  | lease hidle hready => exact of_not_idle nofun rfl
  | connect hstate => exact of_not_idle nofun rfl
  | giveBack hstate => exact of_idle rfl (hok _ _ rfl)
  | timeout hstate => exact of_idle rfl (hok _ _ rfl)
  | evict => exact of_not_idle nofun rfl
  | kill hidle => exact of_not_idle nofun rfl
  | mark => exact of_not_idle nofun (h.unlisted (hok _ _ rfl))
  | resume hstate hstandby =>
    refine of_not_idle nofun (h.unlisted ?_)
    rw [hstate]
    exact nofun
  | rollback => exact of_not_idle nofun (h.unlisted (hok _ _ rfl))
  | restore => exact of_idle rfl (hok _ _ rfl)
  | @relist e b =>
    obtain ⟨pod, c⟩ := e
    have hidle := hok pod c rfl
    exact of_idle hidle (h.ready pod c rfl hidle)
  | dropMissing => exact of_none
  | @added pod b =>
    have hb : b = false := h.untracked rfl
    refine of_some ?_ WorkerCell.new_idle_iff.mp
    rw [hb, Bool.false_or, beq_iff_eq, WorkerCell.new_idle_iff]
  | @rebuilt old pod c b =>
    by_cases hworking : ∃ g, c.state = .working g
    · obtain ⟨g, hg⟩ := hworking
      rw [WorkerCell.rebuild_working hg]
      have hne : c.state ≠ .idle := by
        rw [hg]
        exact nofun
      exact of_not_idle hne (h.unlisted hne)
    · have hne : ∀ g, c.state ≠ .working g := fun g hg => hworking ⟨g, hg⟩
      rw [WorkerCell.rebuild_other hne]
      refine of_some ?_ WorkerCell.new_idle_iff.mp
      rw [WorkerCell.new_idle_iff, ← hok old c rfl hne]
      exact h.listed_iff
  | granted hidle hready => exact of_not_idle nofun (h.unlisted (hok _ _ rfl))
  | settled hidle hready => exact of_idle rfl hready
  | removed => exact of_none
  | @dropped pod c b hstandby hready =>
    have hb : b = false := h.unlisted fun hidle => hready (h.ready pod c rfl hidle)
    rw [hb]
    exact of_none
  | syncIdle hready hstate => exact of_idle rfl hready
  | @syncStandby pod c b hstandby =>
    refine of_not_idle nofun (h.unlisted fun hidle => ?_)
    have hready := h.ready pod c rfl hidle
    rw [hstandby] at hready
    cases hready

/-- **A path.** A side condition that the acts keep, and that gives them what
they need, carries the agreement along. -/
theorem path {A : Act → Prop} {R : Slot → Prop} {x y : Slot} (h : x.Agrees) (hx : R x)
    (hR : ∀ act a b, A act → Slot.Step act a b → a.Agrees → R a → act.IdleOk a ∧ R b)
    (hpath : Path A x y) : y.Agrees := by
  have hboth := hpath.invariant (I := fun a => a.Agrees ∧ R a) ?_ ⟨h, hx⟩
  · exact hboth.1
  · rintro act a b hact hstep ⟨ha, hRa⟩
    obtain ⟨hok, hRb⟩ := hR act a b hact hstep ha hRa
    exact ⟨ha.step hok hstep, hRb⟩

end Slot.Agrees

/-! ## Handlers -/

/-- The pool holds the keys of the tracked pods that are idle and ready, and no
others. -/
def IdlePool (s : SchedulerHandler) : Prop :=
  ∀ k : String, k ∈ s.idlePods ↔
    ∃ w, s.pods[k]? = some w ∧ s.stateOf w = .idle ∧ w.pod.state = .ready

/-- No pod of a function in `F` that can be stopped is idle. -/
def NoneIdle (s : SchedulerHandler) (F : String → Prop) : Prop :=
  ∀ (k : String) (w : WorkerPod), s.pods[k]? = some w → F w.pod.funcKey →
    (s.byNode.known w.pod.nodename).isSome → s.stateOf w ≠ .idle

/-- The evicted pods that a roll-back puts back are ready. -/
def ReadyToRestore (s : SchedulerHandler) (keys : List String) : Prop :=
  ∀ (k : String) (w : WorkerPod), k ∈ keys → s.Stopping k → s.pods[k]? = some w →
    w.pod.state = .ready

/-- When does a handler keep pool and worker states in agreement? -/
def Handler.IdleOk (env : Env) (s : SchedulerHandler) : Handler → Prop
  | .msg (.returnWorker req _) => ∀ w, s.pods[req.worker.podKey]? = some w →
    if req.failworker then s.stateOf w ≠ .idle
    else s.stateOf w ≠ .terminating → w.pod.state = .ready
  | .msg (.cleanupDuplicateSnapshot rpc) => ∀ (k : String) (w : WorkerPod), k ∈ rpc.terminated →
    s.pods[k]? = some w → s.stateOf w = .idle
  | .msg (.resumeWorkerComplete rpc result) => Undoes result →
    (∀ w, s.pods[rpc.podKey]? = some w → s.stateOf w ≠ .idle) ∧ rpc.podKey ∉ rpc.terminated ∧
      ReadyToRestore s rpc.terminated
  | .msg (.startWorkerComplete rpc result) => Undoes result → ReadyToRestore s rpc.terminated
  | .event (.funcModified oldspec _) => NoneIdle s (· = oldspec.id)
  | .event (.funcDeleted spec) => NoneIdle s (· = spec.id)
  | .event (.podModified pod) => ∀ w, s.pods[pod.podKey]? = some w →
    (s.stateOf w = .idle →
      pod.state = .ready ∧ firstAlive env (s.queueOf pod.funcKey) = none) ∧
    (s.stateOf w ≠ .idle → (∀ g, s.stateOf w ≠ .working g) → pod.state = .ready →
      ¬ UnknownFunc s pod.funcKey ∧
      ((s.lookforPeer pod.ipAddr).isOk ∨ s.queueOf pod.funcKey = []))
  | .cleanPods => NoneIdle s (UnknownFunc s)
  | .gatewayTimeout => ∀ (k : String) (w : WorkerPod) (g : ℤ), s.pods[k]? = some w →
    s.stateOf w = .working g → g ∈ s.timeoutGateways env → w.pod.state = .ready
  | _ => True

theorem notIdle_slot {s : SchedulerHandler} {k : String}
    (h : ∀ w, s.pods[k]? = some w → s.stateOf w ≠ .idle) : (s.slot k).NotIdle := by
  intro pod c hentry
  obtain ⟨w, hw, heq⟩ := Option.map_eq_some_iff.mp hentry
  obtain ⟨rfl, rfl⟩ := Prod.mk.inj heq
  exact h w hw

theorem isReady_slot {s : SchedulerHandler} {k : String}
    (h : ∀ w, s.pods[k]? = some w → w.pod.state = .ready) : (s.slot k).IsReady := by
  intro pod c hentry
  obtain ⟨w, hw, heq⟩ := Option.map_eq_some_iff.mp hentry
  obtain ⟨rfl, rfl⟩ := Prod.mk.inj heq
  exact h w hw

/-- Acts that neither need anything nor make a pod idle. -/
def Act.Drains : Act → Prop
  | .evict | .dropMissing | .resume _ => True
  | _ => False

theorem MakesRoom.drains {act : Act} (h : MakesRoom act) : act.Drains := by
  rcases h with rfl | rfl
  · trivial
  · trivial

theorem Prewarms.drains {act : Act} (h : Prewarms act) : act.Drains := by
  rcases h with h | rfl
  · exact h.drains
  · trivial

theorem Act.Drains.idleOk {act : Act} (h : act.Drains) (a : Slot) : act.IdleOk a := by
  cases act with
  | evict => trivial
  | dropMissing => trivial
  | resume => trivial
  | _ => exact h.elim

/-- Draining and marking make no pod idle. -/
theorem Slot.NotIdle.step {act : Act} {a b : Slot} (h : a.NotIdle)
    (hact : act.Drains ∨ act = .mark ∨ act = .rollback) (hstep : Slot.Step act a b) : b.NotIdle := by
  intro pod c hentry
  rcases hact with hact | rfl | rfl
  · cases hstep with
    | evict =>
      obtain ⟨rfl, rfl⟩ := Prod.mk.inj (Option.some.inj hentry)
      exact nofun
    | resume =>
      obtain ⟨rfl, rfl⟩ := Prod.mk.inj (Option.some.inj hentry)
      exact nofun
    | dropMissing => cases hentry
    | _ => exact hact.elim
  · cases hstep
    obtain ⟨rfl, rfl⟩ := Prod.mk.inj (Option.some.inj hentry)
    exact nofun
  · cases hstep
    obtain ⟨rfl, rfl⟩ := Prod.mk.inj (Option.some.inj hentry)
    exact nofun

section Paths

variable {A : Act → Prop} {x y : Slot}

/-- Acts that need nothing. -/
theorem Slot.Agrees.free (h : x.Agrees) (hA : ∀ act, A act → ∀ a, act.IdleOk a)
    (hpath : Path A x y) : y.Agrees :=
  h.path (R := fun _ => True) trivial (fun act a _ hact _ _ _ => ⟨hA act hact a, trivial⟩) hpath

/-- Acts on a pod that is not idle and does not become idle. -/
theorem Slot.Agrees.busy (h : x.Agrees) (hx : x.NotIdle)
    (hA : ∀ act, A act → act.Drains ∨ act = .mark ∨ act = .rollback) (hpath : Path A x y) :
    y.Agrees := by
  refine h.path hx (fun act a b hact hstep _ ha => ⟨?_, ha.step (hA act hact) hstep⟩) hpath
  rcases hA act hact with hdrains | rfl | rfl
  · exact hdrains.idleOk a
  · exact ha
  · exact ha

/-- Stopping the pods of some functions, while others are prewarmed. -/
theorem Slot.Agrees.stop {s : SchedulerHandler} {F : String → Prop} {k : String}
    (h : (s.slot k).Agrees) (hidle : NoneIdle s F)
    (hA : ∀ act, A act → act.Drains ∨ StopOf s.index F k act) (hpath : Path A (s.slot k) y) :
    y.Agrees := by
  by_cases hstop : ∃ act, StopOf s.index F k act
  · obtain ⟨-, -, w, hw, hF, hnode⟩ := hstop
    refine h.busy (notIdle_slot fun v hv => ?_) (fun act hact => ?_) hpath
    · obtain rfl := Option.some.inj (hv.symm.trans hw)
      exact hidle k v hv hF hnode
    · exact (hA act hact).imp_right fun h => Or.inl h.1
  · refine h.free (fun act hact a => ?_) hpath
    rcases hA act hact with hdrains | h
    · exact hdrains.idleOk a
    · exact absurd ⟨act, h⟩ hstop

/-- Putting evicted pods back. -/
theorem Slot.Agrees.restore {s : SchedulerHandler} {keys : List String} {k : String}
    (h : (s.slot k).Agrees) (hready : ReadyToRestore s keys)
    (hA : ∀ act, A act → RestoreOf s keys k act) (hpath : Path A (s.slot k) y) : y.Agrees := by
  by_cases hk : k ∈ keys ∧ s.Stopping k
  · refine h.path (R := Slot.IsReady) (isReady_slot fun w => hready k w hk.1 hk.2) ?_ hpath
    intro act a b hact hstep _ ha
    obtain ⟨rfl, -⟩ := hA act hact
    refine ⟨ha, fun pod c hentry => ?_⟩
    cases hstep
    obtain ⟨rfl, rfl⟩ := Prod.mk.inj (Option.some.inj hentry)
    exact ha _ _ rfl
  · refine h.free (fun act hact => ?_) hpath
    exact absurd (hA act hact).2 hk

/-- Listing a pod that is idle. -/
theorem Slot.Agrees.relist (h : x.Agrees) (hx : ∀ pod c, x.entry = some (pod, c) → c.state = .idle)
    (hA : ∀ act, A act → act = .relist) (hpath : Path A x y) : y.Agrees := by
  refine h.path (R := fun a => ∀ pod c, a.entry = some (pod, c) → c.state = .idle) hx ?_ hpath
  intro act a b hact hstep _ ha
  obtain rfl := hA act hact
  refine ⟨ha, ?_⟩
  cases hstep
  exact ha

end Paths

theorem idle_slot {s : SchedulerHandler} {k : String}
    (h : ∀ w, s.pods[k]? = some w → s.stateOf w = .idle) :
    ∀ pod c, (s.slot k).entry = some (pod, c) → c.state = .idle := by
  intro pod c hentry
  obtain ⟨w, hw, heq⟩ := Option.map_eq_some_iff.mp hentry
  obtain ⟨rfl, rfl⟩ := Prod.mk.inj heq
  exact h w hw

/-- A return. -/
theorem Slot.Agrees.return {s : SchedulerHandler} {key k : String} {fail : Bool} {y : Slot}
    (h : (s.slot k).Agrees) (hok : ∀ w, s.pods[key]? = some w →
      if fail then s.stateOf w ≠ .idle else s.stateOf w ≠ .terminating → w.pod.state = .ready)
    (hpath : Path (ReturnOf key fail k) (s.slot k) y) : y.Agrees := by
  by_cases hk : k = key
  · subst hk
    cases fail with
    | true => exact h.busy (notIdle_slot hok) (fun act hact => Or.inr (Or.inl hact.2)) hpath
    | false =>
      refine h.path (R := fun a => ∀ pod c, a.entry = some (pod, c) → c.state ≠ .terminating →
        pod.state = .ready) ?_ ?_ hpath
      · intro pod c hentry
        obtain ⟨w, hw, heq⟩ := Option.map_eq_some_iff.mp hentry
        obtain ⟨rfl, rfl⟩ := Prod.mk.inj heq
        exact hok w hw
      · intro act a b hact hstep _ ha
        obtain rfl : act = .giveBack := hact.2
        cases hstep with
        | giveBack hne =>
          have hready := ha _ _ rfl hne
          refine ⟨fun pod c hentry => ?_, fun pod c hentry _ => ?_⟩
          · obtain ⟨rfl, rfl⟩ := Prod.mk.inj (Option.some.inj hentry)
            exact hready
          · obtain ⟨rfl, rfl⟩ := Prod.mk.inj (Option.some.inj hentry)
            exact hready
  · exact h.free (fun act hact => absurd hact.1 hk) hpath

/-- A kill. -/
theorem Slot.Agrees.kill {s : SchedulerHandler} {key k : String} {y : Slot}
    (h : (s.slot k).Agrees) (hpath : Path (KillOf s key k) (s.slot k) y) : y.Agrees := by
  by_cases hk : k = key ∧ ∃ w, s.pods[key]? = some w
  · obtain ⟨rfl, w, hw⟩ := hk
    have hsame : ∀ v, s.pods[k]? = some v → v = w := fun v hv => Option.some.inj (hv.symm.trans hw)
    by_cases hidle : s.stateOf w = .idle
    · by_cases hnode : s.index.byNode.known w.pod.nodename = none
      · refine h.relist (idle_slot fun v hv => hsame v hv ▸ hidle) (fun act hact => ?_) hpath
        obtain ⟨-, v, hv, ⟨-, hn⟩ | ⟨rfl, -⟩ | ⟨-, hne⟩⟩ := hact
        · rw [hsame v hv, hnode] at hn
          cases hn
        · rfl
        · exact absurd (hsame v hv ▸ hidle) hne
      · refine h.free (fun act hact => ?_) hpath
        obtain ⟨-, v, hv, ⟨rfl, -⟩ | ⟨-, -, hn⟩ | ⟨-, hne⟩⟩ := hact
        · exact fun _ => trivial
        · exact absurd (hsame v hv ▸ hn) hnode
        · exact absurd (hsame v hv ▸ hidle) hne
    · refine h.path (R := Slot.NotIdle) (notIdle_slot fun v hv => hsame v hv ▸ hidle) ?_ hpath
      intro act a b hact hstep _ ha
      obtain ⟨-, v, hv, ⟨rfl, -⟩ | ⟨-, hn, -⟩ | ⟨rfl, -⟩⟩ := hact
      · cases hstep with
        | kill hstate => exact absurd hstate (ha _ _ rfl)
      · exact absurd (hsame v hv ▸ hn) hidle
      · exact ⟨ha, ha.step (Or.inr (Or.inl rfl)) hstep⟩
  · refine h.free (fun act hact => ?_) hpath
    obtain ⟨hkey, w, hw, -⟩ := hact
    exact absurd ⟨hkey, w, hw⟩ hk

/-- A timeout. -/
theorem Slot.Agrees.timeout {s : SchedulerHandler} {gs : List ℤ} {k : String} {y : Slot}
    (h : (s.slot k).Agrees) (hok : ∀ (w : WorkerPod) (g : ℤ), s.pods[k]? = some w →
      s.stateOf w = .working g → g ∈ gs → w.pod.state = .ready)
    (hpath : Path (TimeoutOf gs k) (s.slot k) y) : y.Agrees := by
  refine h.path (R := fun a => ∀ pod c g, a.entry = some (pod, c) → c.state = .working g → g ∈ gs →
    pod.state = .ready) ?_ ?_ hpath
  · intro pod c g hentry
    obtain ⟨w, hw, heq⟩ := Option.map_eq_some_iff.mp hentry
    obtain ⟨rfl, rfl⟩ := Prod.mk.inj heq
    exact hok w g hw
  · rintro act a b ⟨g, hg, rfl⟩ hstep - ha
    cases hstep with
    | timeout hstate =>
      have hready := ha _ _ g rfl hstate hg
      refine ⟨fun pod c hentry => ?_, fun pod c g' hentry hworking => ?_⟩
      · obtain ⟨rfl, rfl⟩ := Prod.mk.inj (Option.some.inj hentry)
        exact hready
      · obtain ⟨rfl, rfl⟩ := Prod.mk.inj (Option.some.inj hentry)
        cases hworking

theorem WorkerCell.rebuild_not_idle {c : WorkerCell} {pod : FuncPod} (hc : c.state ≠ .idle)
    (hpod : pod.state ≠ .ready) : (c.rebuild pod).state ≠ .idle := by
  by_cases hworking : ∃ g, c.state = .working g
  · obtain ⟨g, hg⟩ := hworking
    rw [WorkerCell.rebuild_working hg]
    exact hc
  · rw [WorkerCell.rebuild_other fun g hg => hworking ⟨g, hg⟩]
    exact fun h => hpod (WorkerCell.new_idle_iff.mp h)

/-- A further report of a leased pod. -/
theorem Slot.Agrees.modified_working {env : Env} {s : SchedulerHandler} {pod : FuncPod}
    {w : WorkerPod} {y : Slot} (h : (s.slot pod.podKey).Agrees) (hw : s.pods[pod.podKey]? = some w)
    (hworking : ∃ g, s.stateOf w = .working g)
    (hpath : Path (fun act => pod.podKey = pod.podKey ∧ ModifiedOf s env pod act)
      (s.slot pod.podKey) y) : y.Agrees := by
  refine h.path (R := fun a => ∀ old c, a.entry = some (old, c) → ∃ g, c.state = .working g) ?_ ?_
    hpath
  · intro old c hentry
    rw [slot_of_tracked hw] at hentry
    obtain ⟨rfl, rfl⟩ := Prod.mk.inj (Option.some.inj hentry)
    exact hworking
  · rintro act a b ⟨-, hact⟩ hstep - ha
    cases hstep with
    | @rebuilt old new c listed =>
      obtain ⟨g, hg⟩ := ha _ _ rfl
      refine ⟨fun old' c' hentry hne => ?_, fun old' c' hentry => ?_⟩
      · obtain ⟨rfl, rfl⟩ := Prod.mk.inj (Option.some.inj hentry)
        exact absurd hg (hne g)
      · obtain ⟨rfl, rfl⟩ := Prod.mk.inj (Option.some.inj hentry)
        rw [WorkerCell.rebuild_working hg]
        exact ⟨g, hg⟩
    | granted hstate =>
      obtain ⟨g, hg⟩ := ha _ _ rfl
      rw [WorkerCell.rebuild_working hg, hg] at hstate
      cases hstate
    | settled hstate =>
      obtain ⟨g, hg⟩ := ha _ _ rfl
      rw [WorkerCell.rebuild_working hg, hg] at hstate
      cases hstate
    | _ => exact hact.elim

/-- A further report of a pod. -/
theorem Slot.Agrees.modified {env : Env} {s : SchedulerHandler} {pod : FuncPod} {k : String} {y : Slot}
    (h : (s.slot k).Agrees) (hok : (Handler.event (.podModified pod)).IdleOk env s)
    (hpath : Path (fun act => k = pod.podKey ∧ ModifiedOf s env pod act) (s.slot k) y) :
    y.Agrees := by
  by_cases hk : k = pod.podKey ∧ ∃ w, s.pods[k]? = some w
  · obtain ⟨rfl, w, hw⟩ := hk
    obtain ⟨hidleOk, hbusyOk⟩ := hok w hw
    have hslot := slot_of_tracked hw
    by_cases hidle : s.stateOf w = .idle
    · -- an idle pod stays idle
      obtain ⟨hready, hqueue⟩ := hidleOk hidle
      refine h.path (R := fun a => ∀ old c, a.entry = some (old, c) → c.state = .idle)
        (idle_slot fun v hv => Option.some.inj (hv.symm.trans hw) ▸ hidle) ?_ hpath
      rintro act a b ⟨-, hact⟩ hstep - ha
      cases hstep with
      | @rebuilt old new c listed =>
        obtain ⟨rfl, -⟩ := hact
        have hstate := ha _ _ rfl
        have hne : ∀ g, c.state ≠ .working g := fun g hg => by
          rw [hstate] at hg
          cases hg
        refine ⟨fun old' c' hentry _ => ?_, fun old' c' hentry => ?_⟩
        · obtain ⟨rfl, rfl⟩ := Prod.mk.inj (Option.some.inj hentry)
          exact ⟨fun _ => hready, fun _ => hstate⟩
        · obtain ⟨rfl, rfl⟩ := Prod.mk.inj (Option.some.inj hentry)
          rw [WorkerCell.rebuild_other hne, WorkerCell.new_idle_iff]
          exact hready
      | granted =>
        obtain ⟨-, q, hq, -⟩ := hact
        rw [hqueue] at hq
        cases hq
      | settled =>
        refine ⟨trivial, fun old' c' hentry => ?_⟩
        obtain ⟨rfl, rfl⟩ := Prod.mk.inj (Option.some.inj hentry)
        rfl
      | _ => exact hact.elim
    · have hnot : (s.slot pod.podKey).NotIdle :=
        notIdle_slot fun v hv => Option.some.inj (hv.symm.trans hw) ▸ hidle
      by_cases hworking : ∃ g, s.stateOf w = .working g
      · exact h.modified_working hw hworking hpath
      · have hne : ∀ g, s.stateOf w ≠ .working g := fun g hg => hworking ⟨g, hg⟩
        by_cases hready : pod.state = .ready
        · -- the report is not passed over: the pod is handed out, or listed
          obtain ⟨hknown, hpeer⟩ := hbusyOk hidle hne hready
          refine h.path (R := fun a => a.NotIdle ∨ firstAlive env (s.queueOf pod.funcKey) = none)
            (Or.inl hnot) ?_ hpath
          rintro act a b ⟨-, hact⟩ hstep - ha
          cases hstep with
          | rebuilt =>
            obtain ⟨rfl, hpassed⟩ := hact
            rcases hpassed hready with ⟨v, g, hv, hg⟩ | hunknown | ⟨herror, hqueue⟩
            · exact absurd (Option.some.inj (hv.symm.trans hw) ▸ hg) (hne g)
            · exact absurd hunknown hknown
            · rcases hpeer with hok' | hempty
              · rw [hok'] at herror
                cases herror
              · exact absurd hempty hqueue
          | granted =>
            obtain ⟨-, q, hq, -⟩ := hact
            have hna := ha.resolve_right fun hnone => by
              rw [hnone] at hq
              cases hq
            refine ⟨hna, Or.inl fun old c hentry => ?_⟩
            obtain ⟨rfl, rfl⟩ := Prod.mk.inj (Option.some.inj hentry)
            exact nofun
          | settled => exact ⟨trivial, Or.inr hact.2⟩
          | _ => exact hact.elim
        · refine h.path (R := Slot.NotIdle) hnot ?_ hpath
          rintro act a b ⟨-, hact⟩ hstep - ha
          cases hstep with
          | @rebuilt old new c listed =>
            obtain ⟨rfl, -⟩ := hact
            have hstate := ha _ _ rfl
            refine ⟨fun old' c' hentry _ => ?_, fun old' c' hentry => ?_⟩
            · obtain ⟨rfl, rfl⟩ := Prod.mk.inj (Option.some.inj hentry)
              exact ⟨fun h => absurd h hstate, fun h => absurd h hready⟩
            · obtain ⟨rfl, rfl⟩ := Prod.mk.inj (Option.some.inj hentry)
              exact WorkerCell.rebuild_not_idle hstate hready
          | granted _ hready' =>
            obtain ⟨rfl, -⟩ := hact
            exact absurd hready' hready
          | settled _ hready' =>
            obtain ⟨rfl, -⟩ := hact
            exact absurd hready' hready
          | _ => exact hact.elim
  · refine h.path (R := fun a => a.entry = none ∨ k ≠ pod.podKey) ?_ ?_ hpath
    · by_cases hkey : k = pod.podKey
      · left
        rcases hw : s.pods[k]? with _ | w
        · rw [slot_of_untracked hw]
        · exact absurd ⟨hkey, w, hw⟩ hk
      · exact Or.inr hkey
    · rintro act a b ⟨hkey, hact⟩ hstep - ha
      have hnone := ha.resolve_right fun hne => hne hkey
      cases hstep with
      | rebuilt => cases hnone
      | granted => cases hnone
      | settled => cases hnone
      | _ => exact hact.elim

/-- **One handler.** A handler keeps pool and worker states in agreement. -/
theorem agrees_next {s t : SchedulerHandler} {c : Call} (hs : s.index.Sound) (hok : c.2.IndexOk s)
    (hidle : c.2.IdleOk c.1 s) (hnext : s.next c = some t) {k : String} (h : (s.slot k).Agrees) :
    (t.slot k).Agrees := by
  have hpath := next_path hs hok hnext k
  obtain ⟨env, hd⟩ := c
  cases hd with
  | msg m =>
    cases m with
    | connectScheduler req tx =>
      refine h.free (fun act hact a => ?_) hpath
      rcases hact with hact | hact
      · exact hact.drains.idleOk a
      · rw [hact.1]
        trivial
    | leaseWorker req tx =>
      refine h.free (fun act hact a => ?_) hpath
      rcases hact with hact | rfl | hact
      · exact hact.drains.idleOk a
      · trivial
      · rw [hact.1]
        trivial
    | returnWorker req tx => exact h.return hidle hpath
    | killPod req tx => exact h.kill hpath
    | cleanupDuplicateSnapshot rpc =>
      by_cases hk : k ∈ rpc.terminated
      · exact h.relist (idle_slot fun w => hidle k w hk) (fun act hact => hact.1) hpath
      · exact h.free (fun act hact => absurd hact.2 hk) hpath
    | resumeWorkerComplete rpc result =>
      by_cases hundo : Undoes result
      · obtain ⟨hstate, hkey, hready⟩ := hidle hundo
        by_cases hk : k = rpc.podKey
        · refine h.busy (notIdle_slot fun w hw => hstate w (hk ▸ hw)) (fun act hact => ?_) hpath
          rcases hact.2 with hact | hact
          · exact Or.inr (Or.inr hact.2)
          · exact absurd (hk ▸ hact.2.1) hkey
        · refine h.restore hready (fun act hact => ?_) hpath
          exact hact.2.resolve_left fun hact => hk hact.1
      · exact h.free (fun act hact => absurd hact.1 hundo) hpath
    | startWorkerComplete rpc result =>
      by_cases hundo : Undoes result
      · exact h.restore (hidle hundo) (fun act hact => hact.2) hpath
      · exact h.free (fun act hact => absurd hact.1 hundo) hpath
    | refreshGateway => exact h.free (fun act hact => hact.elim) hpath
    | removeSnapshotComplete => exact h.free (fun act hact => hact.elim) hpath
    | stopWorkerComplete => exact h.free (fun act hact => hact.elim) hpath
  | event e =>
    cases e with
    | funcAdded func =>
      exact h.free (fun act (hact : Prewarms act) a => hact.drains.idleOk a) hpath
    | funcModified oldspec spec =>
      refine h.stop (F := (· = oldspec.id)) hidle (fun act hact => ?_) hpath
      exact hact.imp_left Prewarms.drains
    | funcDeleted spec =>
      exact h.stop (F := (· = spec.id)) hidle (fun act hact => Or.inr hact) hpath
    | nodeAdded node =>
      refine h.free (fun act hact a => ?_) hpath
      rw [hact.2.1]
      trivial
    | nodeModified node =>
      refine h.free (fun act hact a => ?_) hpath
      rcases hact.2.1 with rfl | rfl | rfl
      · trivial
      · trivial
      · trivial
    | podAdded pod =>
      refine h.free (fun act hact a => ?_) hpath
      rcases hact with hact | hact
      · rw [hact.2.1]
        trivial
      · rw [hact.2]
        trivial
    | podModified pod => exact h.modified hidle hpath
    | podDeleted pod =>
      refine h.free (fun act hact a => ?_) hpath
      rw [hact.2]
      trivial
    | snapshotAdded snapshot =>
      refine h.free (fun act hact a => ?_) hpath
      rw [hact.2.1]
      trivial
    | _ => exact h.free (fun act hact => hact.elim) hpath
  | task => exact h.free (fun act (hact : MakesRoom act) a => hact.drains.idleOk a) hpath
  | warmup => exact h.free (fun act (hact : Prewarms act) a => hact.drains.idleOk a) hpath
  | refresh => exact h.free (fun act (hact : Prewarms act) a => hact.drains.idleOk a) hpath
  | cleanPods => exact h.stop hidle (fun act hact => Or.inr hact) hpath
  | gatewayTimeout => exact h.timeout (fun w g hw => hidle k w g hw) hpath
  | _ => exact h.free (fun act hact => hact.elim) hpath

/-! ## Runs -/

theorem idlePool_of_agrees {s : SchedulerHandler} (h : ∀ k, (s.slot k).Agrees) : IdlePool s := by
  intro k
  have hmem : k ∈ s.idlePods ↔ (s.slot k).idle = true := decide_eq_true_iff.symm
  rw [hmem]
  constructor
  · intro hidle
    rcases hw : s.pods[k]? with _ | w
    · have hslot := slot_of_untracked hw
      rw [(h k).untracked (by rw [hslot])] at hidle
      cases hidle
    · have hentry : (s.slot k).entry = some (w.pod, s.workers w.ref) := by rw [slot_of_tracked hw]
      have hstate := ((h k).listed _ _ hentry).mp hidle
      exact ⟨w, rfl, hstate, (h k).ready _ _ hentry hstate⟩
  · rintro ⟨w, hw, hstate, -⟩
    have hentry : (s.slot k).entry = some (w.pod, s.workers w.ref) := by rw [slot_of_tracked hw]
    exact ((h k).listed _ _ hentry).mpr hstate

theorem Fresh.agrees {s : SchedulerHandler} (h : Fresh s) (k : String) : (s.slot k).Agrees := by
  rw [slot_of_untracked (h.get k), h.idlePods]
  have hidle : decide (k ∈ (LruCache.unbounded : LruCache String)) = false :=
    decide_eq_false (LruCache.not_mem_unbounded k)
  rw [hidle]
  exact Slot.Agrees.of_none

/-- What a run has to keep to for the idle pool. -/
def PoolOk (s : SchedulerHandler) (c : Call) : Prop := c.2.IndexOk s ∧ c.2.IdleOk c.1 s

/-- **The idle pool.** In every run whose handlers keep to `PoolOk`, the pool
holds exactly the idle ready pods after every handler, and no handler fails to
find a chosen idle pod in the pool. -/
theorem idlePool_of_reach {s : SchedulerHandler} (h : Reach next Fresh PoolOk s) :
    IdlePool s ∧ ∀ c : Call, c.2.IndexOk s → (s.call c).panic? ≠ some .idlePodMissing := by
  have hinv : s.index.Sound ∧ ∀ k, (s.slot k).Agrees := by
    refine h.invariant (I := fun s => s.index.Sound ∧ ∀ k, (s.slot k).Agrees)
      (fun s hs => ⟨hs.sound, hs.agrees⟩) ?_
    rintro s c t ⟨hs, hagrees⟩ ⟨hindex, hidle⟩ hnext
    exact ⟨next_sound hs hindex hnext, fun k => agrees_next hs hindex hidle hnext (hagrees k)⟩
  obtain ⟨hs, hagrees⟩ := hinv
  have hpool := idlePool_of_agrees hagrees
  refine ⟨hpool, fun c hok hp => ?_⟩
  have hlisted : IdleListed s := fun k w hw hready hstate => (hpool k).mpr ⟨w, hw, hstate, hready⟩
  have hcalm : ¬ Calm .idlePodMissing := fun h => h.2.2.2.2.2 rfl
  have hpanic := call_panics hs hok hp
  unfold Handler.Panics at hpanic
  split at hpanic
  next =>
    rcases hpanic with h | ⟨-, h⟩
    · exact hcalm h
    · exact h hlisted
  next =>
    rcases hpanic with h | ⟨h, -⟩
    · exact hcalm h
    · cases h
  next =>
    rcases hpanic with h | ⟨h, -⟩ | ⟨h, -⟩ | ⟨h, -⟩
    · exact hcalm h
    · cases h
    · cases h
    · cases h
  next =>
    rcases hpanic with h | ⟨h, -⟩
    · exact hcalm h
    · cases h
  next => exact hcalm hpanic

namespace Sample

/-- The node and the function arrive, and a ready pod is reported. -/
def readyPod : List Call :=
  [event (.nodeAdded node), event (.funcAdded func), event (.podAdded (pod "1" .ready))]

/-- A request for the function. -/
def leaseReq (gatewayId : ℤ) : LeaseWorkerReq where
  tenant := "t"
  nameSpace := "s"
  funcname := "f"
  fprevision := 1
  gatewayId := gatewayId

/-- A gateway asks for a pod. -/
def lease (gatewayId : ℤ) : Call := msg (.leaseWorker (leaseReq gatewayId) 0)

end Sample

theorem idlePool_after_lease :
    (calls {} (Sample.readyPod ++ [Sample.lease 7])).isSome ∧
      IdlePool (after (Sample.readyPod ++ [Sample.lease 7])) := by
  refine ⟨by decide +kernel, (idlePool_of_reach ?_).1⟩
  have h₁ : Reach next Fresh PoolOk (after [Sample.event (.nodeAdded Sample.node)]) := by
    refine .step (c := Sample.event (.nodeAdded Sample.node)) (.init fresh_new)
      ⟨⟨trivial, ?_⟩, trivial⟩ (next_after (l := []) (by decide +kernel))
    show PodIndex.NodeArrivable _ _
    decide +kernel
  have h₂ : Reach next Fresh PoolOk (after [Sample.event (.nodeAdded Sample.node),
      Sample.event (.funcAdded Sample.func)]) := by
    refine .step (c := Sample.event (.funcAdded Sample.func)) h₁ ⟨⟨trivial, ?_⟩, trivial⟩
      (next_after (l := [_]) (by decide +kernel))
    show PodIndex.FuncArrivable _ _
    decide +kernel
  have h₃ : Reach next Fresh PoolOk (after Sample.readyPod) := by
    refine .step (c := Sample.event (.podAdded (Sample.pod "1" .ready))) h₂
      ⟨⟨trivial, fun hnew => ?_⟩, trivial⟩ (next_after (l := [_, _]) (by decide +kernel))
    exact absurd hnew (by decide +kernel)
  exact .step (c := Sample.lease 7) h₃ ⟨⟨trivial, trivial⟩, trivial⟩ (next_after (by decide +kernel))

/-- An idle pod of a function that is deleted is marked terminating, but stays
in the pool. -/
theorem funcDeleted_leaves_pod_listed : ¬ ∀ (l : List DeltaEvent) (t : SchedulerHandler),
    WellOrdered l → calls {} (l.map Sample.event) = some t → IdlePool t := by
  intro h
  have hpool := h [.nodeAdded Sample.node, .funcAdded Sample.func,
    .podAdded (Sample.pod "1" .ready), .funcDeleted Sample.func] _ (by decide +kernel)
    (calls_eq_after (by decide +kernel))
  generalize ht : after _ = t at hpool
  have hlisted : (Sample.pod "1" .ready).podKey ∈ t.idlePods := by
    rw [← ht]
    decide +kernel
  have hnone : (t.pods[(Sample.pod "1" .ready).podKey]?.all fun w => t.stateOf w ≠ .idle) = true := by
    rw [← ht]
    decide +kernel
  obtain ⟨w, hw, hstate, -⟩ := (hpool (Sample.pod "1" .ready).podKey).mp hlisted
  rw [hw, Option.all_some, decide_eq_true_iff] at hnone
  exact hnone hstate

end Inferx
