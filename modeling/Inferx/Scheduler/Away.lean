import Mathlib.Data.Set.Defs
import Inferx.Scheduler.Grants

/-!
# Pods that are away

A pod is away when it is not idle and no gateway works with it but those in `G`: no lease
request finds it, and no other gateway can take it over when it connects. A leased pod is
away from all gateways but the one that holds it, and a pod that is being stopped from all
of them. `Act.KeepsAway` says what an act needs so that the pod does not come back, and
`Handler.KeepsAway` the same of the handlers.
-/

namespace Inferx

open Proc SchedulerHandler

/-! ## Slots -/

/-- The pod of the slot, if there is one, is not idle, and works for gateways in `G` only. -/
def Slot.Away (G : Set ℤ) (a : Slot) : Prop :=
  ∀ pod c, a.entry = some (pod, c) → c.state ≠ .idle ∧ ∀ g, c.state = .working g → g ∈ G

/-- The pod of the slot, if there is one, is being stopped. -/
def Slot.IsTerminating (a : Slot) : Prop :=
  ∀ pod c, a.entry = some (pod, c) → c.state = .terminating

/-- A gateway works with the pod of the slot, if there is one that is ready. -/
def Slot.WorksIfReady (a : Slot) : Prop :=
  ∀ pod c, a.entry = some (pod, c) → pod.state = .ready → ∃ g, c.state = .working g

/-- A gateway works with the pod of the slot, if there is one. -/
def Slot.Works (a : Slot) : Prop := ∀ pod c, a.entry = some (pod, c) → ∃ g, c.state = .working g

/-- What an act needs to leave a pod away. -/
def Act.KeepsAway (G : Set ℤ) (a : Slot) : Act → Prop
  | .giveBack => a.IsTerminating
  | .timeout g => g ∉ G
  | .restore | .added _ => False
  | .rebuilt new | .settled new | .granted new _ _ => new.state = .ready → a.Works
  | .syncIdle => a.WorksIfReady
  | _ => True

namespace Slot.Away

variable {G : Set ℤ} {pod : FuncPod} {c : WorkerCell} {b : Bool}

theorem of_none : Slot.Away G ⟨none, b⟩ := fun _ _ h => (nomatch h)

theorem of_state (hidle : c.state ≠ .idle) (hworks : ∀ g, c.state = .working g → g ∈ G) :
    Slot.Away G ⟨some (pod, c), b⟩ := by
  intro pod' c' h
  obtain ⟨rfl, rfl⟩ := Prod.mk.inj (Option.some.inj h)
  exact ⟨hidle, hworks⟩

/-- A pod with another state than idle and working. -/
theorem of_other (hidle : c.state ≠ .idle) (hworks : ∀ g, c.state ≠ .working g) :
    Slot.Away G ⟨some (pod, c), b⟩ := of_state hidle fun g hg => absurd hg (hworks g)

theorem not_idle (h : Slot.Away G ⟨some (pod, c), b⟩) : c.state ≠ .idle := (h pod c rfl).1

theorem mem (h : Slot.Away G ⟨some (pod, c), b⟩) {g : ℤ} (hg : c.state = .working g) : g ∈ G :=
  (h pod c rfl).2 g hg

/-- A report that says ready leaves a pod that somebody works with where it is. -/
theorem rebuild_ne_idle (h : Slot.Away G ⟨some (pod, c), b⟩) {new : FuncPod}
    (hkeep : new.state = .ready → Slot.Works ⟨some (pod, c), b⟩) : (c.rebuild new).state ≠ .idle := by
  by_cases hworks : ∃ g, c.state = .working g
  · obtain ⟨g, hg⟩ := hworks
    rw [WorkerCell.rebuild_working hg]
    exact h.not_idle
  · rw [WorkerCell.rebuild_other fun g hg => hworks ⟨g, hg⟩]
    intro hidle
    have hready : new.state = .ready := by
      cases hnew : new.state <;> simp [WorkerCell.new, hnew] at hidle ⊢
    exact hworks (hkeep hready pod c rfl)

/-- **One act.** An act that has what it needs leaves the pod away, and does not list it. -/
theorem step {act : Act} {x y : Slot} (h : x.Away G) (hkeep : act.KeepsAway G x)
    (hstep : Slot.Step act x y) : y.Away G ∧ (y.idle = true → x.idle = true ∨ act = .relist) := by
  cases hstep with
  | lease hidle hready => exact absurd hidle h.not_idle
  | connect hstate =>
    refine ⟨of_state nofun fun g' hg' => ?_, nofun⟩
    obtain rfl := WorkerPodState.working.inj hg'
    exact h.mem (hstate.resolve_left h.not_idle)
  | giveBack hstate => exact absurd (hkeep _ _ rfl) hstate
  | timeout hstate => exact absurd (h.mem hstate) hkeep
  | evict => exact ⟨of_other nofun nofun, nofun⟩
  | kill hidle => exact absurd hidle h.not_idle
  | mark => exact ⟨of_other nofun nofun, Or.inl⟩
  | resume hstate hstandby => exact ⟨of_other nofun nofun, Or.inl⟩
  | rollback => exact ⟨of_other nofun nofun, Or.inl⟩
  | restore => exact hkeep.elim
  | relist => exact ⟨h, fun _ => Or.inr rfl⟩
  | dropMissing => exact ⟨of_none, nofun⟩
  | added => exact hkeep.elim
  | @rebuilt old new c b =>
    refine ⟨of_state (h.rebuild_ne_idle hkeep) fun g hg => ?_, Or.inl⟩
    by_cases hworks : ∃ g', c.state = .working g'
    · obtain ⟨g', hg'⟩ := hworks
      rw [WorkerCell.rebuild_working hg'] at hg
      exact h.mem hg
    · rw [WorkerCell.rebuild_other fun g' hg' => hworks ⟨g', hg'⟩] at hg
      cases hnew : new.state <;> simp [WorkerCell.new, hnew] at hg
  | granted hidle hready => exact absurd hidle (h.rebuild_ne_idle hkeep)
  | settled hidle hready => exact absurd hidle (h.rebuild_ne_idle hkeep)
  | removed => exact ⟨of_none, nofun⟩
  | dropped => exact ⟨of_none, Or.inl⟩
  | syncIdle hready hstate =>
    obtain ⟨g, hg⟩ := hkeep _ _ rfl hready
    exact absurd hg (hstate g)
  | syncStandby hstandby => exact ⟨of_other nofun nofun, Or.inl⟩

/-- **A path.** A side condition that the acts keep gives them what they need. -/
theorem path {A : Act → Prop} {R : Slot → Prop} {x y : Slot} (h : x.Away G) (hx : R x)
    (hR : ∀ act a b, A act → Slot.Step act a b → R a → act.KeepsAway G a ∧ R b)
    (hpath : Path A x y) : y.Away G ∧ (y.idle = true → x.idle = true ∨ A .relist) := by
  have hall := hpath.invariant
    (I := fun a => R a ∧ a.Away G ∧ (a.idle = true → x.idle = true ∨ A .relist)) ?_ ⟨hx, h, Or.inl⟩
  · exact hall.2
  · rintro act a b hact hstep ⟨hRa, ha, hlisted⟩
    obtain ⟨hkeep, hRb⟩ := hR act a b hact hstep hRa
    obtain ⟨hb, hlist⟩ := ha.step hkeep hstep
    refine ⟨hRb, hb, fun hidle => ?_⟩
    rcases hlist hidle with hidle | rfl
    · exact hlisted hidle
    · exact Or.inr hact

/-- Acts that need nothing. -/
theorem free {A : Act → Prop} {x y : Slot} (h : x.Away G) (hA : ∀ act, A act → ∀ a, act.KeepsAway G a)
    (hpath : Path A x y) : y.Away G ∧ (y.idle = true → x.idle = true ∨ A .relist) :=
  h.path (R := fun _ => True) trivial (fun act a _ hact _ _ => ⟨hA act hact a, trivial⟩) hpath

end Slot.Away

/-! ## Handlers -/

/-- When does a handler leave the pod `k` away? -/
def Handler.KeepsAway (env : Env) (s : SchedulerHandler) (G : Set ℤ) (k : String) : Handler → Prop
  | .msg (.returnWorker req _) => req.worker.podKey = k → req.failworker = false →
    ∀ w, s.pods[k]? = some w → s.stateOf w = .terminating
  | .msg (.resumeWorkerComplete rpc result) => Undoes result → k ∈ rpc.terminated → ¬ s.Stopping k
  | .msg (.startWorkerComplete rpc result) => Undoes result → k ∈ rpc.terminated → ¬ s.Stopping k
  | .event (.nodeModified node) => Restarted s node → ∀ w, s.pods[k]? = some w →
    w.pod.nodename = node.name → w.pod.state = .ready → ∃ g, s.stateOf w = .working g
  | .event (.podAdded pod) => pod.podKey ≠ k
  | .event (.podModified pod) => pod.podKey = k → pod.state = .ready →
    ∀ w, s.pods[k]? = some w → ∃ g, s.stateOf w = .working g
  | .gatewayTimeout => ∀ g ∈ s.timeoutGateways env, g ∉ G
  | _ => True

/-- The handler puts the pod `k` back into the pool without looking at its state. -/
def Handler.Relists (k : String) : Handler → Prop
  | .msg (.cleanupDuplicateSnapshot rpc) => k ∈ rpc.terminated
  | _ => False

/-- What holds of a tracked pod holds of its slot. -/
theorem forall_slot {s : SchedulerHandler} {k : String} {P : FuncPod → WorkerCell → Prop}
    (h : ∀ w, s.pods[k]? = some w → P w.pod (s.workers w.ref)) :
    ∀ pod c, (s.slot k).entry = some (pod, c) → P pod c := by
  intro pod c hentry
  obtain ⟨w, hw, heq⟩ := Option.map_eq_some_iff.mp hentry
  obtain ⟨rfl, rfl⟩ := Prod.mk.inj heq
  exact h w hw

theorem MakesRoom.keepsAway {act : Act} (h : MakesRoom act) (G : Set ℤ) (a : Slot) :
    act.KeepsAway G a := by
  rcases h with rfl | rfl
  · trivial
  · trivial

theorem Prewarms.keepsAway {act : Act} (h : Prewarms act) (G : Set ℤ) (a : Slot) :
    act.KeepsAway G a := by
  rcases h with h | rfl
  · exact h.keepsAway G a
  · trivial

section Paths

variable {G : Set ℤ} {s : SchedulerHandler} {k : String} {y : Slot}

/-- A return. -/
theorem Slot.Away.return (h : (s.slot k).Away G) {key : String} {fail : Bool}
    (hkeep : key = k → fail = false → ∀ w, s.pods[k]? = some w → s.stateOf w = .terminating)
    (hpath : Path (ReturnOf key fail k) (s.slot k) y) :
    y.Away G ∧ (y.idle = true → (s.slot k).idle = true ∨ ReturnOf key fail k .relist) := by
  cases fail with
  | true =>
    refine h.free (fun act hact a => ?_) hpath
    rw [hact.2]
    trivial
  | false =>
    by_cases hk : key = k
    · refine h.path (R := Slot.IsTerminating)
        (forall_slot (P := fun _ c => c.state = .terminating) (hkeep hk rfl)) ?_ hpath
      rintro act a b ⟨-, rfl⟩ hstep ha
      refine ⟨ha, ?_⟩
      -- a pod that is being stopped is not taken back
      cases hstep with
      | giveBack hstate => exact absurd (ha _ _ rfl) hstate
    · exact h.free (fun act hact => absurd hact.1.symm hk) hpath

/-- A node agent that restarts. -/
theorem Slot.Away.reconcile (h : (s.slot k).Away G) {n : String}
    (hkeep : ∀ w, s.pods[k]? = some w → w.pod.nodename = n → w.pod.state = .ready →
      ∃ g, s.stateOf w = .working g) (hpath : Path (ReconcileOf s n k) (s.slot k) y) :
    y.Away G ∧ (y.idle = true → (s.slot k).idle = true ∨ ReconcileOf s n k .relist) := by
  by_cases hn : ∃ w, s.pods[k]? = some w ∧ w.pod.nodename = n
  · obtain ⟨w, hw, hn⟩ := hn
    refine h.path (R := Slot.WorksIfReady) (forall_slot
      (P := fun pod c => pod.state = .ready → ∃ g, c.state = .working g) fun v hv hready => ?_) ?_ hpath
    · obtain rfl := Option.some.inj (hv.symm.trans hw)
      exact hkeep v hv hn hready
    · rintro act a b ⟨rfl | rfl | rfl, -⟩ hstep ha
      · cases hstep
        exact ⟨trivial, fun _ _ hentry => (nomatch hentry)⟩
      · refine ⟨ha, ?_⟩
        cases hstep with
        | syncIdle hready hstate =>
          obtain ⟨g, hg⟩ := ha _ _ rfl hready
          exact absurd hg (hstate g)
      · cases hstep with
        | syncStandby hstandby =>
          refine ⟨trivial, fun pod c hentry hready => ?_⟩
          obtain ⟨rfl, rfl⟩ := Prod.mk.inj (Option.some.inj hentry)
          rw [hstandby] at hready
          cases hready
  · exact h.free (fun act hact => absurd hact.2 hn) hpath

/-- A report. -/
theorem Slot.Away.report (h : (s.slot k).Away G) {env : Env} {pod : FuncPod} (hkey : k = pod.podKey)
    (hkeep : pod.state = .ready → ∀ w, s.pods[k]? = some w → ∃ g, s.stateOf w = .working g)
    (hpath : Path (fun act => k = pod.podKey ∧ ModifiedOf s env pod act) (s.slot k) y) :
    y.Away G ∧ (y.idle = true → (s.slot k).idle = true ∨
      k = pod.podKey ∧ ModifiedOf s env pod .relist) := by
  refine h.path (R := fun a => pod.state = .ready → a.Works)
    (fun hready => forall_slot (P := fun _ c => ∃ g, c.state = .working g) (hkeep hready)) ?_ hpath
  rintro act a b ⟨-, hact⟩ hstep ha
  cases hstep with
  | @rebuilt old new c b =>
    obtain ⟨rfl, -⟩ := hact
    refine ⟨ha, fun hready pod' c' hentry => ?_⟩
    obtain ⟨g, hg⟩ := ha hready _ _ rfl
    obtain ⟨rfl, rfl⟩ := Prod.mk.inj (Option.some.inj hentry)
    exact ⟨g, by rw [WorkerCell.rebuild_working hg, hg]⟩
  | @settled old new c b hidle hready =>
    obtain ⟨rfl, -⟩ := hact
    obtain ⟨g, hg⟩ := ha hready _ _ rfl
    rw [WorkerCell.rebuild_working hg, hg] at hidle
    cases hidle
  | @granted old new c b g t hidle hready =>
    obtain ⟨rfl, -⟩ := hact
    obtain ⟨g', hg⟩ := ha hready _ _ rfl
    rw [WorkerCell.rebuild_working hg, hg] at hidle
    cases hidle
  | _ => exact hact.elim

end Paths

/-- Who lists a pod without looking at its state? -/
theorem Handler.relists_of_acts {env : Env} {s : SchedulerHandler} {h : Handler} {k : String}
    (hact : h.acts env s k .relist) :
    h.Relists k ∨ ∃ w, s.pods[k]? = some w ∧ s.stateOf w = .idle := by
  cases h with
  | msg m =>
    cases m with
    | connectScheduler req tx => rcases hact with (h | h) | h <;> cases h <;> contradiction
    | leaseWorker req tx => rcases hact with h | h | h <;> cases h <;> contradiction
    | returnWorker req tx =>
      obtain ⟨-, hact⟩ := hact
      split at hact
      next => cases hact
      next => cases hact
    | killPod req tx =>
      obtain ⟨rfl, w, hw, ⟨h, -⟩ | ⟨-, hidle, -⟩ | ⟨h, -⟩⟩ := hact
      · cases h
      · exact Or.inr ⟨w, hw, hidle⟩
      · cases h
    | cleanupDuplicateSnapshot rpc => exact Or.inl hact.2
    | resumeWorkerComplete rpc result =>
      obtain ⟨-, ⟨-, h⟩ | ⟨h, -⟩⟩ := hact
      · cases h
      · cases h
    | startWorkerComplete rpc result => cases hact.2.1
    | _ => exact hact.elim
  | event e =>
    cases e with
    | funcAdded func => rcases hact with (h | h) | h <;> cases h
    | funcModified oldspec spec =>
      rcases hact with ((h | h) | h) | ⟨h, -⟩
      · cases h
      · cases h
      · cases h
      · cases h
    | funcDeleted spec => cases hact.1
    | nodeAdded node => cases hact.2.1
    | nodeModified node =>
      obtain ⟨-, h | h | h, -⟩ := hact
      · cases h
      · cases h
      · cases h
    | podAdded pod =>
      rcases hact with ⟨-, h, -⟩ | ⟨-, h⟩
      · cases h
      · cases h
    | podModified pod => exact hact.2.elim
    | podDeleted pod => cases hact.2
    | snapshotAdded snapshot => cases hact.2.1
    | _ => exact hact.elim
  | task => rcases hact with h | h <;> cases h
  | warmup => rcases hact with (h | h) | h <;> cases h
  | refresh => rcases hact with (h | h) | h <;> cases h
  | cleanPods => cases hact.1
  | gatewayTimeout =>
    obtain ⟨g, -, h⟩ := hact
    cases h
  | _ => exact hact.elim

/-- The slot after a handler that keeps to the condition. -/
theorem away_slot {G : Set ℤ} {env : Env} {s : SchedulerHandler} {h : Handler} {k : String} {y : Slot}
    (hkeep : h.KeepsAway env s G k) (hpath : Path (h.acts env s k) (s.slot k) y)
    (haway : (s.slot k).Away G) :
    y.Away G ∧ (y.idle = true → (s.slot k).idle = true ∨ h.acts env s k .relist) := by
  cases h with
  | msg m =>
    cases m with
    | connectScheduler req tx =>
      refine haway.free (fun act hact a => ?_) hpath
      rcases hact with hact | ⟨rfl, -⟩
      · exact hact.keepsAway G a
      · trivial
    | leaseWorker req tx =>
      refine haway.free (fun act hact a => ?_) hpath
      rcases hact with hact | rfl | ⟨rfl, -⟩
      · exact hact.keepsAway G a
      · trivial
      · trivial
    | returnWorker req tx => exact haway.return hkeep hpath
    | killPod req tx =>
      refine haway.free (fun act hact a => ?_) hpath
      obtain ⟨-, w, -, ⟨rfl, -⟩ | ⟨rfl, -⟩ | ⟨rfl, -⟩⟩ := hact
      · trivial
      · trivial
      · trivial
    | cleanupDuplicateSnapshot rpc =>
      refine haway.free (fun act hact a => ?_) hpath
      obtain ⟨rfl, -⟩ := hact
      trivial
    | resumeWorkerComplete rpc result =>
      refine haway.free (fun act hact a => ?_) hpath
      obtain ⟨hundo, ⟨-, rfl⟩ | ⟨rfl, hmem, hstop⟩⟩ := hact
      · trivial
      · exact absurd hstop (hkeep hundo hmem)
    | startWorkerComplete rpc result =>
      refine haway.free (fun act hact a => ?_) hpath
      obtain ⟨hundo, rfl, hmem, hstop⟩ := hact
      exact absurd hstop (hkeep hundo hmem)
    | _ => exact haway.free (fun act hact => hact.elim) hpath
  | event e =>
    cases e with
    | funcAdded func => exact haway.free (fun act hact a => Prewarms.keepsAway hact G a) hpath
    | funcModified oldspec spec =>
      refine haway.free (fun act hact a => ?_) hpath
      rcases hact with hact | ⟨rfl, -⟩
      · exact hact.keepsAway G a
      · trivial
    | funcDeleted spec =>
      refine haway.free (fun act hact a => ?_) hpath
      obtain ⟨rfl, -⟩ := hact
      trivial
    | nodeAdded node =>
      refine haway.free (fun act hact a => ?_) hpath
      obtain ⟨-, rfl, -⟩ := hact
      trivial
    | nodeModified node =>
      by_cases hrestart : Restarted s node
      · have hacts : ∀ act, Handler.acts env s (.event (.nodeModified node)) k act ↔
            ReconcileOf s node.name k act := fun act => and_iff_right hrestart
        obtain ⟨hy, hlist⟩ := haway.reconcile (hkeep hrestart) (hpath.mono fun act => (hacts act).mp)
        exact ⟨hy, fun hidle => (hlist hidle).imp_right (hacts _).mpr⟩
      · exact haway.free (fun act hact => absurd hact.1 hrestart) hpath
    | podAdded pod =>
      refine haway.free (fun act hact a => ?_) hpath
      rcases hact with ⟨-, rfl, -⟩ | ⟨hkey, -⟩
      · trivial
      · exact absurd hkey.symm hkeep
    | podModified pod =>
      by_cases hkey : k = pod.podKey
      · exact haway.report hkey (hkeep hkey.symm) hpath
      · exact haway.free (fun act hact => absurd hact.1 hkey) hpath
    | podDeleted pod =>
      refine haway.free (fun act hact a => ?_) hpath
      obtain ⟨-, rfl⟩ := hact
      trivial
    | snapshotAdded snapshot =>
      refine haway.free (fun act hact a => ?_) hpath
      obtain ⟨-, rfl, -⟩ := hact
      trivial
    | _ => exact haway.free (fun act hact => hact.elim) hpath
  | task => exact haway.free (fun act hact a => MakesRoom.keepsAway hact G a) hpath
  | warmup => exact haway.free (fun act hact a => Prewarms.keepsAway hact G a) hpath
  | refresh => exact haway.free (fun act hact a => Prewarms.keepsAway hact G a) hpath
  | cleanPods =>
    refine haway.free (fun act hact a => ?_) hpath
    obtain ⟨rfl, -⟩ := hact
    trivial
  | gatewayTimeout =>
    refine haway.free (fun act hact a => ?_) hpath
    obtain ⟨g, hg, rfl⟩ := hact
    exact hkeep g hg
  | _ => exact haway.free (fun act hact => hact.elim) hpath

/-- **One call.** A handler that keeps to the condition leaves the pod away, and puts it into
the pool only where it does so without looking. -/
theorem away_next {G : Set ℤ} {s t : SchedulerHandler} {c : Call} {k : String} (hs : s.index.Sound)
    (hok : c.2.IndexOk s) (hkeep : c.2.KeepsAway c.1 s G k) (hnext : s.next c = some t)
    (h : (s.slot k).Away G) :
    (t.slot k).Away G ∧ (k ∈ t.idlePods → k ∈ s.idlePods ∨ c.2.Relists k) := by
  obtain ⟨haway, hlisted⟩ := away_slot hkeep (next_path hs hok hnext k) h
  refine ⟨haway, fun hmem => ?_⟩
  rcases hlisted (decide_eq_true hmem) with hidle | hrelist
  · exact Or.inl (of_decide_eq_true hidle)
  · refine Or.inr ((Handler.relists_of_acts hrelist).resolve_right ?_)
    rintro ⟨w, hw, hidle⟩
    exact (h _ _ (congrArg Slot.entry (slot_of_tracked hw))).1 hidle

/-! ## Handing out -/

theorem podState_ne_idle {G : Set ℤ} {s : SchedulerHandler} {k : String} (h : (s.slot k).Away G) :
    s.podState k ≠ some .idle := by
  intro hidle
  obtain ⟨⟨pod, c⟩, hentry, hstate⟩ := Option.map_eq_some_iff.mp hidle
  exact (h pod c hentry).1 hstate

/-- The state of the pod says whether it is away. -/
theorem away_of_podState {G : Set ℤ} {s : SchedulerHandler} {k : String} {x : WorkerPodState}
    (hs : s.podState k = some x) (hidle : x ≠ .idle) (hworks : ∀ g, x = .working g → g ∈ G) :
    (s.slot k).Away G := by
  intro pod c hentry
  simp only [podState, hentry, Option.map_some, Option.some.injEq] at hs
  rw [hs]
  exact ⟨hidle, hworks⟩

/-- A pod that is away, and that a report leaves so, is not handed out. -/
theorem not_offered {G : Set ℤ} (env : Env) {s : SchedulerHandler} {h : Handler} {k : String}
    (haway : (s.slot k).Away G)
    (hkeep : ∀ pod, h = .event (.podModified pod) → h.KeepsAway env s G k) : ¬ h.Offers s k := by
  intro hoffer
  cases h with
  | msg m =>
    cases m with
    | leaseWorker req tx => exact podState_ne_idle haway hoffer
    | _ => exact hoffer
  | event e =>
    cases e with
    | podModified pod =>
      obtain ⟨hkey, hready, w, hw, hnone⟩ := hoffer
      obtain ⟨g, hg⟩ := hkeep pod rfl hkey.symm hready w hw
      exact hnone g hg
    | _ => exact hoffer
  | _ => exact hoffer

end Inferx
