import Inferx.Scheduler.Reserving
import Inferx.Scheduler.Sweeping

/-!
# Reservations that end

The store events and the answers about a resume, a creation or a duplicate end reservations
and lift snapshot marks. `Thins D A` says that between two states only reservations in `D`
have ended and only marks in `A` have been made, and that no reservation is new.
-/

namespace Inferx

open Proc SchedulerHandler

/-- No reservation is new, those in `D` may have ended, the marks in `A` may have been made,
and new functions are as they should be. -/
structure Thins (D A : String → String → Prop) (s t : SchedulerHandler) : Prop where
  /-- functions -/
  funcs : ∀ f func, t.ledger.2.1 f = some func → s.ledger.2.1 f = some func ∨ func.Plain ∧ func.id = f
  /-- no reservation is new -/
  sub : ∀ n k p, t.pendingAt n k = some p → s.pendingAt n k = some p
  /-- reservations end in `D` only -/
  kept : ∀ n k p, s.pendingAt n k = some p → t.pendingAt n k = some p ∨ D n k
  /-- marks are made in `A` only -/
  marks : ∀ f n, SnapshotPending t f n → SnapshotPending s f n ∨ A f n

/-- The known functions, the reservations and the marks. -/
def SchedulerHandler.register (s : SchedulerHandler) : (String → Option Function) ×
    (String → Option (BTreeMap String PendingPod)) × BTreeMap String (Finset String) := s.ledger.2

section Thins

variable {D A : String → String → Prop} {s t u : SchedulerHandler} {f n k : String}

theorem Thins.of_register (h : t.register = s.register) : Thins D A s t where
  funcs f func hf := Or.inl ((congrFun (congrArg Prod.fst h) f).symm.trans hf)
  sub n k p hp := by
    have hpending : t.ledger.2.2.1 n = s.ledger.2.2.1 n := congrFun (congrArg (fun l => l.2.1) h) n
    rw [pendingAt_eq, hpending] at hp
    rw [pendingAt_eq]
    exact hp
  kept n k p hp := by
    have hpending : t.ledger.2.2.1 n = s.ledger.2.2.1 n := congrFun (congrArg (fun l => l.2.1) h) n
    refine Or.inl ?_
    rw [pendingAt_eq] at hp ⊢
    rw [hpending]
    exact hp
  marks f n hmark := by
    have hmarks : t.pendingsnapshots = s.pendingsnapshots := congrArg (fun l => l.2.2) h
    simp only [SnapshotPending, hmarks] at hmark
    exact Or.inl hmark

instance (D A : String → String → Prop) : IsPreorder SchedulerHandler (Thins D A) where
  refl _ := .of_register rfl
  trans _ _ _ h h' :=
    { funcs := fun f func hf => (h'.funcs f func hf).elim (h.funcs f func) Or.inr
      sub := fun n k p hp => h.sub n k p (h'.sub n k p hp)
      kept := fun n k p hp => (h.kept n k p hp).elim (h'.kept n k p) Or.inr
      marks := fun f n hmark => (h'.marks f n hmark).elim (h.marks f n) Or.inr }

theorem Thins.mono {D' A' : String → String → Prop} (h : Thins D A s t) (hD : ∀ n k, D n k → D' n k)
    (hA : ∀ f n, A f n → A' f n) : Thins D' A' s t :=
  { h with
    kept := fun n k p hp => (h.kept n k p hp).imp_right (hD n k)
    marks := fun f n hmark => (h.marks f n hmark).imp_right (hA f n) }

theorem Thins.funcsOk (h : Thins D A s t) (hs : s.FuncsOk) : t.FuncsOk := by
  intro f fs hfs
  have hget : t.ledger.2.1 f = some fs.func := by
    simp only [ledger, hfs, Option.map_some]
  rcases h.funcs f fs.func hget with hf | hnew
  · obtain ⟨fs', hfs', hfunc⟩ := Option.map_eq_some_iff.mp hf
    rw [← hfunc]
    exact hs f fs' hfs'
  · exact hnew

theorem thins_insertNode {ns ns' : NodeStatus} (hn : s.nodes[n]? = some ns)
    (hsub : ∀ (k : String) p, ns'.pendingPods[k]? = some p → ns.pendingPods[k]? = some p)
    (hkept : ∀ (k : String) p, ns.pendingPods[k]? = some p → ns'.pendingPods[k]? = some p ∨ D n k) :
    Thins D A s { s with nodes := s.nodes.insert n ns' } where
  funcs _ _ hf := Or.inl hf
  sub m k p hp := by
    simp only [pendingAt, BTreeMap.get_insert] at hp ⊢
    split at hp
    next hm =>
      rw [hm, hn]
      exact hsub k p hp
    next => exact hp
  kept m k p hp := by
    simp only [pendingAt, BTreeMap.get_insert] at hp ⊢
    split
    next hm =>
      rw [hm, hn] at hp
      rw [hm]
      exact hkept k p hp
    next => exact Or.inl hp
  marks _ _ hmark := Or.inl hmark

theorem thins_modifyNode {g : NodeStatus → NodeStatus}
    (hsub : ∀ ns (k : String) p, (g ns).pendingPods[k]? = some p → ns.pendingPods[k]? = some p)
    (hkept : ∀ ns (k : String) p, ns.pendingPods[k]? = some p →
      (g ns).pendingPods[k]? = some p ∨ D n k) :
    Thins D A s (s.modifyNode n g) where
  funcs _ _ hf := Or.inl hf
  sub m k p hp := by
    simp only [pendingAt, modifyNode, BTreeMap.get_modify] at hp ⊢
    split at hp
    next hm =>
      obtain ⟨ns', hns', hp⟩ := Option.bind_eq_some_iff.mp hp
      obtain ⟨ns, hns, rfl⟩ := Option.map_eq_some_iff.mp hns'
      rw [hns]
      exact hsub ns k p hp
    next => exact hp
  kept m k p hp := by
    simp only [pendingAt, modifyNode, BTreeMap.get_modify] at hp ⊢
    split
    next hm =>
      obtain ⟨ns, hns, hp⟩ := Option.bind_eq_some_iff.mp hp
      rw [hns, hm]
      exact hkept ns k p hp
    next => exact Or.inl hp
  marks _ _ hmark := Or.inl hmark

theorem thins_dropNodePending (hD : D n k) : Thins D A s (s.dropNodePending n k) := by
  refine thins_modifyNode (fun ns a p hp => ?_) fun ns a p hp => ?_
  · exact (BTreeMap.get_erase_eq_some.mp hp).2
  · simp only [BTreeMap.get_erase]
    split
    next ha => exact Or.inr (ha ▸ hD)
    next => exact Or.inl hp

theorem thins_removePendingSnapshot : Thins D A s (s.removePendingSnapshot f n) where
  funcs g func hg := by
    rw [removePendingSnapshot_eq] at hg
    exact Or.inl hg
  sub m k p hp := by
    rw [removePendingSnapshot_eq] at hp
    exact hp
  kept m k p hp := by
    rw [removePendingSnapshot_eq]
    exact Or.inl hp
  marks _ _ hmark := Or.inl (pendingSnapshot_removePendingSnapshot.mp hmark).1

theorem thins_removePendingSnapshotsOn : Thins D A s (s.removePendingSnapshotsOn n) :=
  foldl_keeps (P := Thins D A s)
    (fun _ _ _ ht => IsTrans.trans _ _ _ ht thins_removePendingSnapshot) (Std.Refl.refl s)

theorem thins_addPendingSnapshot (hA : A f n) : Thins D A s (s.addPendingSnapshot f n) where
  funcs _ _ hf := Or.inl hf
  sub _ _ _ hp := hp
  kept _ _ _ hp := Or.inl hp
  marks g m hmark := by
    obtain ⟨nodes, hnodes, hmem⟩ := hmark
    simp only [addPendingSnapshot, BTreeMap.get_insert] at hnodes
    split at hnodes
    next hg =>
      obtain rfl := Option.some.inj hnodes
      rcases Finset.mem_insert.mp hmem with rfl | hmem
      · rw [hg]
        exact Or.inr hA
      · rcases hf : s.pendingsnapshots[f]? with _ | old
        · rw [hf] at hmem
          exact absurd hmem (Finset.notMem_empty m)
        · rw [hf] at hmem
          rw [hg]
          exact Or.inl ⟨old, hf, hmem⟩
    next => exact Or.inl ⟨nodes, hnodes, hmem⟩

end Thins

/-! ## Procedures -/

/-- The procedure lets nothing go but in `D`, and marks nothing but in `A`. -/
abbrev Thinning (D A : String → String → Prop) {α : Type} (x : SchedM α) : Prop :=
  Moves (Thins D A) (fun _ => True) x

section Procedures

variable {D A : String → String → Prop}

theorem Thinning.modify {g : SchedulerHandler → SchedulerHandler}
    (h : ∀ s, (g s).register = s.register) : Thinning D A (Proc.modify g) :=
  Moves.modify fun s => .of_register (h s)

theorem thinning_liftFault {α : Type} (x : Except Fault α) : Thinning D A (liftFault x) :=
  Moves.lift fun _ _ => trivial

theorem register_modifyFunc {s : SchedulerHandler} {f : String} {g : FuncStatus → FuncStatus}
    (hg : ∀ fs, (g fs).func = fs.func) : (s.modifyFunc f g).register = s.register :=
  congrArg Prod.snd (ledger_modifyFunc hg)

theorem register_modifyNode {s : SchedulerHandler} {n : String} {g : NodeStatus → NodeStatus}
    (hg : ∀ ns, (g ns).pendingPods = ns.pendingPods) : (s.modifyNode n g).register = s.register :=
  congrArg Prod.snd (ledger_modifyNode hg)

theorem thinning_addTask (task : SchedTask) : Thinning D A (addTask task) := by
  refine Moves.bind Moves.get fun s => ?_
  split
  next => exact Thinning.modify fun _ => rfl
  next => exact Moves.crash trivial

theorem thinning_addSnapshotTask (env : Env) (n f : String) :
    Thinning D A (addSnapshotTask env n f) := by
  refine Moves.bind Moves.get fun s => ?_
  split
  next => exact Moves.crash trivial
  next =>
    split
    next => exact Moves.pure ()
    next => exact Thinning.modify fun _ => rfl

/-! ### Added pods -/

theorem thinning_trackNew (w : WorkerPod) : Thinning D A (trackNew w) := by
  refine Moves.bind Moves.get fun s => ?_
  split
  next => exact Moves.crash trivial
  next => exact Thinning.modify fun _ => rfl

theorem thinning_startSnapshotPodBilling (env : Env) (pod : FuncPod) :
    Thinning D A (startSnapshotPodBilling env pod) := by
  refine Moves.bind Moves.get fun s => ?_
  dsimp only
  split
  next => exact Moves.pure ()
  next =>
    split
    next => exact Moves.crash trivial
    next =>
      split
      next => exact Moves.pure ()
      next => exact Thinning.modify fun _ => rfl

theorem thinning_noteSnapshotPod (env : Env) {pod : FuncPod}
    (hA : pod.createType = .snapshot → A pod.funcKey pod.nodename) :
    Thinning D A (noteSnapshotPod env pod) := by
  simp only [noteSnapshotPod]
  split
  next h =>
    rw [Bool.and_eq_true, beq_iff_eq] at h
    refine Moves.bind (Moves.modify fun s => thins_addPendingSnapshot (hA h.1)) fun _ => ?_
    split
    next => exact Moves.pure ()
    next => exact thinning_startSnapshotPodBilling env pod
  next => exact Moves.pure ()

theorem register_enlistIdle {s : SchedulerHandler} (w : WorkerPod) :
    (s.enlistIdle w).register = s.register := by
  simp only [enlistIdle]
  split
  next => rfl
  next => rfl

theorem addPod_pendingPods {ns ns' : NodeStatus} {w : WorkerPod} (h : ns.addPod w = .ok ns')
    (k : String) : ns'.pendingPods[k]? = if k = w.pod.podKey then none else ns.pendingPods[k]? := by
  simp only [NodeStatus.addPod] at h
  split at h
  next hnone =>
    obtain ⟨a, -, ha⟩ := Except.bind_eq_ok.mp h
    obtain rfl := Except.ok.inj ha
    split
    next hk => rw [hk, hnone]
    next => rfl
  next =>
    obtain rfl := Except.ok.inj h
    exact BTreeMap.get_erase ..

/-- A reservation ends: what has been changed otherwise does not matter. -/
theorem thins_endReservation {s : SchedulerHandler} {n key : String} {ns ns' : NodeStatus}
    (hn : s.nodes[n]? = some ns) (hD : D n key)
    (h : ∀ k : String, ns'.pendingPods[k]? = if k = key then none else ns.pendingPods[k]?) :
    Thins D A s { s with nodes := s.nodes.insert n ns' } := by
  refine thins_insertNode hn (fun k p hp => ?_) fun k p hp => ?_
  · rw [h k] at hp
    split at hp
    next => cases hp
    next => exact hp
  · rw [h k]
    split
    next hk => exact Or.inr (hk ▸ hD)
    next => exact Or.inl hp

theorem thinning_addPodToNode {w : WorkerPod} (hD : D w.pod.nodename w.pod.podKey) :
    Thinning D A (addPodToNode w) := by
  refine Moves.get_bind fun s => ?_
  split
  next => exact Thins.of_register rfl
  next ns hns =>
    rw [wp_bind]
    refine wp_fault fun ns' hns' => ?_
    rw [wp_modify]
    exact thins_endReservation hns hD (addPod_pendingPods hns')

theorem register_addPodToFunc {s : SchedulerHandler} (w : WorkerPod) :
    (s.addPodToFunc w).register = s.register := by
  simp only [addPodToFunc]
  split
  next => rfl
  next => exact register_modifyFunc fun _ => rfl

/-- The worker pod that is made has the pod object. -/
theorem thinning_newWorkerPod_bind {pod : FuncPod} {α : Type} {g : WorkerPod → SchedM α}
    (hg : ∀ w, w.pod = pod → Thinning D A (g w)) : Thinning D A (newWorkerPod pod >>= g) := by
  intro s
  have hmade : Thins D A s (s.withNewWorker pod) := .of_register rfl
  rw [wp_bind]
  show Proc.wp _ _ _ _ (s.withNewWorker pod)
  exact wp_mono (hg ⟨s.nextWorker, pod⟩ rfl (s.withNewWorker pod))
    (fun _ _ h => IsTrans.trans _ _ _ hmade h) (fun _ _ h => IsTrans.trans _ _ _ hmade h) fun _ h => h

theorem thinning_addPod (env : Env) {pod : FuncPod} (hD : D pod.nodename pod.podKey)
    (hA : pod.createType = .snapshot → A pod.funcKey pod.nodename) :
    Thinning D A (addPod env pod) := by
  refine thinning_newWorkerPod_bind fun w hw => ?_
  subst hw
  refine Moves.bind (thinning_trackNew w) fun _ => ?_
  refine Moves.bind (thinning_noteSnapshotPod env hA) fun _ => ?_
  refine Moves.bind (Thinning.modify fun _ => register_enlistIdle w) fun _ => ?_
  refine Moves.bind (thinning_addPodToNode hD) fun _ => ?_
  exact Thinning.modify fun _ => register_addPodToFunc w

/-! ### Modified pods -/

theorem register_keepLease {s : SchedulerHandler} (old w : WorkerPod) :
    (s.keepLease old w).register = s.register := by
  simp only [keepLease]
  split
  next => rfl
  next => rfl

theorem updatePod_pendingPods {ns ns' : NodeStatus} {w old : WorkerPod}
    (h : ns.updatePod w old = .ok ns') : ns'.pendingPods =
      if old.pod.state = .resuming ∧ w.pod.state = .ready then ns.pendingPods.erase w.pod.podKey
      else ns.pendingPods := by
  simp only [NodeStatus.updatePod] at h
  split at h
  next =>
    rw [← Except.ok.inj h]
  next => cases h

theorem releaseStandby_pendingPods {ns ns' : NodeStatus} {w old : WorkerPod}
    (h : releaseStandby ns w old = .ok ns') : ns'.pendingPods = ns.pendingPods := by
  simp only [releaseStandby] at h
  split at h
  next => exact freeResource_pendingPods h
  next => rw [← Except.ok.inj h]

theorem thinning_updatePodOnNode {w old : WorkerPod}
    (hD : old.pod.state = .resuming → w.pod.state = .ready → D w.pod.nodename w.pod.podKey) :
    Thinning D A (updatePodOnNode w old) := by
  refine Moves.get_bind fun s => ?_
  split
  next => exact Thins.of_register rfl
  next ns hns =>
    rw [wp_bind]
    refine (wp_lift _).mpr ⟨fun ns₁ hns₁ => ?_, fun _ _ => trivial⟩
    rw [wp_bind]
    refine wp_fault fun ns₂ hns₂ => ?_
    rw [wp_modify]
    have hpending := (releaseStandby_pendingPods hns₂).trans (updatePod_pendingPods hns₁)
    split at hpending
    next hready =>
      refine thins_endReservation hns (hD hready.1 hready.2) fun k => ?_
      rw [hpending, BTreeMap.get_erase]
    next =>
      exact thins_insertNode hns (fun k p hp => hpending ▸ hp) fun k p hp => Or.inl (hpending ▸ hp)

theorem thinning_setWorking (w : WorkerPod) (g : ℤ) : Thinning D A (setWorking w g) := by
  refine Moves.bind Moves.get fun s => ?_
  split
  next => exact Moves.crash trivial
  next => exact Moves.crash trivial
  next => exact Moves.crash trivial
  next => exact Thinning.modify fun _ => rfl

theorem thinning_serveLeaseQueue (env : Env) (w : WorkerPod) (f : String) (queue : List QueuedLease) :
    Thinning D A (serveLeaseQueue env w f queue) := by
  induction queue with
  | nil => exact Moves.bind (Thinning.modify fun _ => rfl) fun _ => Moves.pure _
  | cons q rest ih =>
    refine Moves.bind (Thinning.modify fun _ => register_modifyFunc fun _ => rfl) fun _ => ?_
    split
    next => exact Moves.crash trivial
    next =>
      refine Moves.bind Moves.get fun s => ?_
      split
      next => exact Moves.throw _
      next =>
        split
        next =>
          refine Moves.bind (Moves.bind (Thinning.modify fun _ => rfl) fun _ => ?_) fun _ => Moves.pure _
          exact Moves.bind (thinning_setWorking w _) fun _ => Thinning.modify fun _ => rfl
        next => exact ih

theorem thinning_updatePodInFunc (env : Env) (w : WorkerPod) :
    Thinning D A (updatePodInFunc env w) := by
  refine Moves.bind Moves.get fun s => ?_
  split
  next => exact Moves.bind (Thinning.modify fun _ => rfl) fun _ => Moves.pure _
  next fs _ =>
    simp only [updatePodOfFunc]
    split
    next => exact Moves.crash trivial
    next =>
      refine Moves.bind (Thinning.modify fun _ => register_modifyFunc fun _ => rfl) fun _ => ?_
      refine Moves.bind Moves.get fun t => ?_
      split
      next => exact thinning_serveLeaseQueue env w _ _
      next => exact Moves.pure _

/-- A report ends a reservation only if the pod has become ready after a resume. -/
theorem updatePod_thins (env : Env) {pod : FuncPod} {s : SchedulerHandler}
    (hD : ∀ w, s.pods[pod.podKey]? = some w → w.pod.state = .resuming → pod.state = .ready →
      D pod.nodename pod.podKey) :
    (updatePod env pod).wp (fun _ t => Thins D A s t) (fun _ t => Thins D A s t) (fun _ => True) s := by
  have hmade : ∀ pods, Thins D A s { s.withNewWorker pod with pods } := fun _ => .of_register rfl
  have hrest : ∀ old, s.pods[pod.podKey]? = some old → ∀ w, w.pod = pod → Thinning D A (do
      modify (·.keepLease old w)
      updatePodOnNode w old
      let addToIdle ← updatePodInFunc env w
      modify fun s => if addToIdle then s.putIdle pod.podKey else s) := by
    intro old hold w hw
    subst hw
    refine Moves.bind (Thinning.modify fun _ => register_keepLease old w) fun _ => ?_
    refine Moves.bind (thinning_updatePodOnNode (hD old hold)) fun _ => ?_
    refine Moves.bind (thinning_updatePodInFunc env w) fun _ => Thinning.modify fun _ => ?_
    split
    next => rfl
    next => rfl
  simp only [updatePod]
  rw [wp_bind]
  show Proc.wp _ _ _ _ (s.withNewWorker pod)
  simp only [retrack]
  rw [wp_bind, wp_bind, wp_get]
  have hpods : (s.withNewWorker pod).pods = s.pods := rfl
  rw [hpods]
  rcases hold : s.pods[pod.podKey]? with _ | old
  · trivial
  · rw [wp_bind, wp_modify, wp_pure]
    exact wp_mono (hrest old hold ⟨s.nextWorker, pod⟩ rfl _)
      (fun _ _ h => IsTrans.trans _ _ _ (hmade _) h) (fun _ _ h => IsTrans.trans _ _ _ (hmade _) h)
      fun _ h => h

/-! ### Deleted pods -/

theorem register_closePod {s : SchedulerHandler} (env : Env) (pod : FuncPod) :
    (s.closePod env pod).register = s.register := by
  simp only [closePod]
  split
  next =>
    simp only [endSnapshotPodBilling]
    split
    next => rfl
    next =>
      split
      next => rfl
      next => rfl
  next => rfl

theorem thinning_untrack (k : String) : Thinning D A (untrack k) := by
  refine Moves.bind Moves.get fun s => ?_
  split
  next => exact Moves.crash trivial
  next => exact Thinning.modify fun _ => rfl

theorem thinning_noteFailedPod (env : Env) (pod : FuncPod) : Thinning D A (noteFailedPod env pod) := by
  refine Moves.bind Moves.get fun s => ?_
  split
  next =>
    split
    next =>
      refine Moves.bind (thinning_addSnapshotTask env _ _) fun _ => ?_
      split
      next => exact Thinning.modify fun _ => rfl
      next => exact Moves.crash trivial
    next => exact Moves.pure ()
  next => exact Moves.pure ()

theorem infallible_untrack (k : String) : Infallible (untrack k) := by
  refine Infallible.bind Infallible.get fun s => ?_
  split
  next => exact Infallible.crash _
  next => exact Infallible.modify _

/-- The deletion of the pod lifts its mark. -/
def FuncPod.Requeued (pod : FuncPod) : Prop :=
  pod.createType = .snapshot ∧ isSnapshotPodFinished pod.state = false

theorem requeueSnapshot_thins (env : Env) (pod : FuncPod) (s : SchedulerHandler) :
    (requeueSnapshot env pod).wp
      (fun _ t => Thins D A s t ∧ (pod.Requeued → ¬ SnapshotPending t pod.funcKey pod.nodename))
      (fun _ _ => False) (fun _ => True) s := by
  have hgone : ∀ t : SchedulerHandler,
      ¬ SnapshotPending (t.removePendingSnapshot pod.funcKey pod.nodename) pod.funcKey pod.nodename :=
    fun t h => (pendingSnapshot_removePendingSnapshot.mp h).2 ⟨rfl, rfl⟩
  simp only [requeueSnapshot]
  split
  next =>
    rw [wp_bind, wp_get]
    split
    next => exact ⟨thins_removePendingSnapshot, fun _ => hgone s⟩
    next =>
      rw [wp_bind]
      refine wp_mono ((addSnapshotTask_infallible env _ _).wp_of_moves
        (thinning_addSnapshotTask (D := D) (A := A) env _ _) s) (fun _ t ht => ?_) (fun _ _ h => h)
        fun _ h => h
      exact ⟨IsTrans.trans _ _ _ ht thins_removePendingSnapshot, fun _ => hgone t⟩
  next h =>
    refine ⟨Std.Refl.refl s, fun hpod => absurd ?_ h⟩
    rw [Bool.and_eq_true, beq_iff_eq, Bool.not_eq_true']
    exact hpod

theorem thinning_removePodFromNode {pod : FuncPod} (hD : D pod.nodename pod.podKey) :
    Thinning D A (removePodFromNode pod) := by
  refine Moves.get_bind fun s => ?_
  split
  next => exact Std.Refl.refl s
  next ns hns =>
    rw [wp_bind]
    refine wp_fault fun ns' hns' => ?_
    rw [wp_modify]
    refine thins_endReservation hns hD fun k => ?_
    have hpending : ns'.pendingPods = ns.pendingPods.erase pod.podKey := by
      simp only [NodeStatus.removePod] at hns'
      split at hns'
      next => exact freeResource_pendingPods hns'
      next => rw [← Except.ok.inj hns']
    rw [hpending, BTreeMap.get_erase]

/-- **A deleted pod** leaves no mark if it had not finished. -/
theorem removePod_thins (env : Env) {pod : FuncPod} (hD : D pod.nodename pod.podKey)
    (s : SchedulerHandler) :
    (removePod env pod).wp
      (fun _ t => Thins D (fun _ _ => False) s t ∧
        (pod.Requeued → ¬ SnapshotPending t pod.funcKey pod.nodename))
      (fun _ t => Thins D (fun _ _ => False) s t ∧
        (pod.Requeued → ¬ SnapshotPending t pod.funcKey pod.nodename)) (fun _ => True) s := by
  have hrest : Thinning D (fun _ _ => False) (do
      modify (·.popIdle pod.podKey)
      removePodFromNode pod
      modify (·.modifyFunc pod.funcKey (·.removePod pod.podKey))) :=
    Moves.bind (Thinning.modify fun _ => rfl) fun _ => Moves.bind (thinning_removePodFromNode hD) fun _ =>
      Thinning.modify fun _ => register_modifyFunc fun _ => rfl
  simp only [removePod]
  rw [wp_bind, wp_modify, wp_bind]
  have h₁ : Thins D (fun _ _ => False) s (s.closePod env pod) := .of_register (register_closePod env pod)
  refine wp_mono ((infallible_untrack _).wp_of_moves
    (thinning_untrack (D := D) (A := fun _ _ => False) _) _) (fun _ s₂ h₂ => ?_)
    (fun _ _ h => h.elim) fun _ h => h
  rw [wp_bind]
  refine wp_mono ((noteFailedPod_infallible env pod).wp_of_moves
    (thinning_noteFailedPod (D := D) (A := fun _ _ => False) env pod) s₂) (fun _ s₃ h₃ => ?_)
    (fun _ _ h => h.elim) fun _ h => h
  rw [wp_bind]
  refine wp_mono (requeueSnapshot_thins (D := D) (A := fun _ _ => False) env pod s₃) (fun _ s₄ h₄ => ?_) (fun _ _ h => h.elim)
    fun _ h => h
  have h : Thins D (fun _ _ => False) s s₄ :=
    IsTrans.trans _ _ _ h₁ (IsTrans.trans _ _ _ h₂ (IsTrans.trans _ _ _ h₃ h₄.1))
  have hend : ∀ t, Thins D (fun _ _ => False) s₄ t → Thins D (fun _ _ => False) s t ∧
      (pod.Requeued → ¬ SnapshotPending t pod.funcKey pod.nodename) := fun t ht =>
    ⟨IsTrans.trans _ _ _ h ht, fun hpod hmark => h₄.2 hpod ((ht.marks _ _ hmark).resolve_right id)⟩
  exact wp_mono (hrest s₄) (fun _ t ht => hend t ht) (fun _ t ht => hend t ht) fun _ h => h

/-! ### Nodes -/

theorem register_foldl {α : Type} {g : SchedulerHandler → α → SchedulerHandler}
    (hg : ∀ s a, (g s a).register = s.register) (l : List α) (s : SchedulerHandler) :
    (l.foldl g s).register = s.register := by
  induction l generalizing s with
  | nil => rfl
  | cons a l ih => exact (ih (g s a)).trans (hg s a)

theorem register_cleanFuncStatusForNode {s : SchedulerHandler} (n : String) :
    (s.cleanFuncStatusForNode n).register = s.register := by
  simp only [cleanFuncStatusForNode]
  split
  next => rfl
  next ns _ =>
    refine (register_foldl (fun t q => ?_) _ _).trans (register_foldl (fun t q => ?_) _ _)
    · split
      next => exact register_modifyFunc fun _ => rfl
      next => rfl
    · exact register_modifyFunc fun _ => rfl

/-- The node is not known, or it is, and has gone with its reservations and marks. -/
theorem removeNode_thins (node : Node) (s : SchedulerHandler) :
    (removeNode node).wp
      (fun _ t => (s.nodes[node.name]?).isSome ∧ Thins (fun n _ => n = node.name) A s t ∧
        ∀ f, ¬ SnapshotPending t f node.name)
      (fun _ t => s.nodes[node.name]? = none ∧ t = s) (fun _ => True) s := by
  simp only [removeNode]
  rw [wp_bind, wp_get]
  split
  next hn =>
    rw [wp_bind, wp_modify, wp_bind, wp_modify, wp_modify]
    rw [Std.ExtTreeMap.contains_eq_isSome_getElem?] at hn
    let u := (s.cleanFuncStatusForNode node.name).removePendingSnapshotsOn node.name
    have hu : Thins (fun n _ => n = node.name) A s u :=
      IsTrans.trans _ _ _ (.of_register (register_cleanFuncStatusForNode node.name))
        thins_removePendingSnapshotsOn
    have herase : Thins (fun n _ => n = node.name) A u { u with nodes := u.nodes.erase node.name } :=
      { funcs := fun _ _ h => Or.inl h
        sub := fun n k p hp => by
          simp only [pendingAt, BTreeMap.get_erase] at hp ⊢
          split at hp
          next => cases hp
          next => exact hp
        kept := fun n k p hp => by
          simp only [pendingAt, BTreeMap.get_erase] at hp ⊢
          split
          next hn => exact Or.inr hn
          next => exact Or.inl hp
        marks := fun _ _ h => Or.inl h }
    exact ⟨hn, IsTrans.trans _ _ _ hu herase, fun f => pendingSnapshot_removePendingSnapshotsOn⟩
  next hn =>
    rw [Std.ExtTreeMap.contains_eq_isSome_getElem?, Bool.not_eq_true,
      Option.isSome_eq_false_iff, Option.isNone_iff_eq_none] at hn
    exact ⟨hn, rfl⟩

theorem thinning_removePods (env : Env) {pods : BTreeMap String WorkerPod}
    (hD : ∀ (k : String) (w : WorkerPod), pods[k]? = some w → D w.pod.nodename w.pod.podKey) :
    Thinning D (fun _ _ => False) (removePods env pods) := by
  refine Moves.each fun q hq => Moves.ignore fun s => ?_
  refine wp_mono (removePod_thins env (hD q.1 q.2 (BTreeMap.mem_toList.mp hq)) s) (fun _ _ h => h.1)
    (fun _ _ h => h.1) fun _ h => h

theorem thins_forgetSnapshotsOn {s : SchedulerHandler} {n : String} :
    Thins D A s (s.forgetSnapshotsOn n) := by
  let s₁ : SchedulerHandler := { s with
    snapshots := s.snapshots.keys.foldl (fun m funcId => m.removeInner funcId n) s.snapshots }
  have h₁ : Thins D A s s₁ := .of_register rfl
  have h₂ : Thins D A s₁ (s₁.removePendingSnapshotsOn n) := thins_removePendingSnapshotsOn
  have h₃ : Thins D A (s₁.removePendingSnapshotsOn n) (s.forgetSnapshotsOn n) := .of_register rfl
  exact IsTrans.trans _ _ _ h₁ (IsTrans.trans _ _ _ h₂ h₃)

/-- **A new epoch** ends the reservations of the node and lifts its marks. -/
theorem cleanNode_thins (env : Env) (n : String) {s : SchedulerHandler} (hs : s.index.Sound)
    (hpark : s.index.NodeArrivable n) :
    (cleanNode env n).wp
      (fun _ t => Thins (fun m _ => m = n) A s t ∧ ∀ f, ¬ SnapshotPending t f n)
      (fun _ _ => False) (fun _ => True) s := by
  let D : String → String → Prop := fun m _ => m = n
  have hpods : ∀ {m : BTreeMap String WorkerPod} {t : SchedulerHandler}, (∀ (k : String) (w : WorkerPod),
      m[k]? = some w → t.pods[k]? = some w ∧ w.pod.nodename = n) →
      Moves (Thins D A) (fun _ => True) (removePods env m) := fun hm s =>
    wp_mono (thinning_removePods (D := D) env (fun k w hw => (hm k w hw).2) s)
      (fun _ _ h => h.mono (fun _ _ h => h) fun _ _ h => h.elim)
      (fun _ _ h => h.mono (fun _ _ h => h) fun _ _ h => h.elim) fun _ h => h
  simp only [cleanNode]
  rw [wp_bind, wp_get, wp_bind, wp_modify, wp_bind]
  have hparked : ∀ (k : String) (w : WorkerPod), (s.nodePods[n]?.getD ∅)[k]? = some w →
      s.pods[k]? = some w ∧ w.pod.nodename = n := fun k w hw => by
    rw [BTreeMap.get_getD] at hw
    exact hpark k w hw
  have hunpark : Cleaned n s { s with nodePods := s.nodePods.erase n } := Cleaned.unpark hs rfl
  refine wp_mono (wp_and (hpods hparked _) (removePods_spec env hunpark hparked)) ?_
    (fun _ _ h => h.2) fun _ _ => trivial
  rintro - t ⟨ht, hcleaned, -⟩
  have hfirst : Thins D A s { s with nodePods := s.nodePods.erase n } := .of_register rfl
  have h₂ : Thins D A s t := IsTrans.trans _ _ _ hfirst ht
  rw [wp_bind, wp_modify, wp_bind, wp_get, wp_bind]
  have hclean := hcleaned.of_life (life_cleanFuncStatusForNode (s := t) n)
  have hheld : ∀ (k : String) (w : WorkerPod), ((t.cleanFuncStatusForNode n).podsOfNode n)[k]? = some w →
      (t.cleanFuncStatusForNode n).pods[k]? = some w ∧ w.pod.nodename = n := fun k w hw => by
    simp only [podsOfNode] at hw
    split at hw
    next => simp at hw
    next ns hns => exact tracked_of_nodePods hclean.sound hns hw
  have h₃ : Thins D A s (t.cleanFuncStatusForNode n) :=
    IsTrans.trans _ _ _ h₂ (.of_register (register_cleanFuncStatusForNode n))
  refine wp_mono (wp_and (hpods hheld _) (removePods_spec env hclean hheld)) ?_
    (fun _ _ h => h.2) fun _ _ => trivial
  rintro - u ⟨hu, hcleaned', -⟩
  rw [wp_bind, wp_modify, wp_bind, wp_get]
  have hgone : ∀ f, ¬ SnapshotPending (u.forgetSnapshotsOn n) f n := fun f =>
    pendingSnapshot_removePendingSnapshotsOn
  have h₅ : Thins D A s (u.forgetSnapshotsOn n) :=
    IsTrans.trans _ _ _ h₃ (IsTrans.trans _ _ _ hu thins_forgetSnapshotsOn)
  split
  next => exact ⟨h₅, hgone⟩
  next ns hns =>
    have hname : ns.node.name = n := (hcleaned'.of_life (life_forgetSnapshotsOn n)).sound.named n _
      (congrArg (Option.map fun ns : NodeStatus => ns.node.name) hns)
    rw [wp_ignore]
    refine wp_mono (removeNode_thins (A := A) ns.node _) (fun _ v hv => ?_) (fun _ v hv => ?_)
      fun _ h => h
    · rw [hname] at hv
      exact ⟨IsTrans.trans _ _ _ h₅ hv.2.1, hv.2.2⟩
    · rw [hv.2]
      exact ⟨h₅, hgone⟩

/-- A new epoch of a node. -/
theorem checkNodeEpoch_thins (env : Env) (n : String) (epoch : ℤ) {s : SchedulerHandler}
    (hs : s.index.Sound) (hpark : NewEpoch s n epoch → s.index.NodeArrivable n) :
    (checkNodeEpoch env n epoch).wp
      (fun _ t => Thins (fun m _ => NewEpoch s n epoch ∧ m = n) A s t ∧
        (NewEpoch s n epoch → ∀ f, ¬ SnapshotPending t f n))
      (fun _ _ => False) (fun _ => True) s := by
  simp only [checkNodeEpoch]
  rw [wp_bind, wp_get]
  split
  next hnone =>
    refine ⟨.of_register rfl, ?_⟩
    rintro ⟨old, hold, -⟩
    rw [hnone] at hold
    cases hold
  next old hold =>
    split
    next heq =>
      refine ⟨.of_register rfl, ?_⟩
      rintro ⟨old', hold', hne⟩
      rw [hold] at hold'
      exact absurd ((Option.some.inj hold').symm.trans heq) hne
    next hne =>
      have hnew : NewEpoch s n epoch := ⟨old, hold, hne⟩
      rw [wp_bind]
      refine wp_mono (cleanNode_thins (A := A) env n hs (hpark hnew)) (fun _ t ht => ?_) (fun _ _ h => h)
        fun _ _ => trivial
      refine ⟨IsTrans.trans _ _ _ (ht.1.mono (fun m _ hm => ⟨hnew, hm⟩) fun _ _ h => h)
        (.of_register rfl), fun _ => ht.2⟩

theorem thinning_addPeer (node : Node) : Thinning D A (addPeer node) := by
  refine Moves.bind Moves.get fun s => ?_
  split
  next => exact Moves.crash trivial
  next => exact Thinning.modify fun _ => rfl

theorem NodeStatus.new_pendingPods {env : Env} {node : Node} {total : NodeResources}
    {pods : BTreeMap String WorkerPod} {ns : NodeStatus}
    (h : NodeStatus.new env node total pods = .ok ns) : ns.pendingPods = ∅ := by
  obtain ⟨a, -, ha⟩ := Except.bind_eq_ok.mp h
  rw [← Except.ok.inj ha]

/-- A node that is added had no reservations, and has none. -/
theorem thinning_addNode (env : Env) (node : Node) : Thinning D A (addNode env node) := by
  refine Moves.get_bind fun s => ?_
  split
  next => exact Std.Refl.refl s
  next hn =>
    rw [Std.ExtTreeMap.contains_eq_isSome_getElem?, Bool.not_eq_true,
      Option.isSome_eq_false_iff, Option.isNone_iff_eq_none] at hn
    rw [wp_bind]
    refine wp_fault fun ns hns => ?_
    rw [wp_bind, wp_modify]
    let u : SchedulerHandler := { s with
      nodePods := s.nodePods.erase node.name
      nodes := s.nodes.insert node.name ns }
    have hu : Thins D A s u :=
      { funcs := fun _ _ h => Or.inl h
        sub := fun n k p hp => by
          simp only [u, pendingAt, BTreeMap.get_insert] at hp ⊢
          split at hp
          next =>
            rw [Option.bind_some, NodeStatus.new_pendingPods hns] at hp
            simp at hp
          next => exact hp
        kept := fun n k p hp => by
          simp only [u, pendingAt, BTreeMap.get_insert] at hp ⊢
          split
          next h =>
            rw [h, hn] at hp
            cases hp
          next => exact Or.inl hp
        marks := fun _ _ h => Or.inl h }
    exact wp_mono (thinning_addTask _ u) (fun _ _ h => IsTrans.trans _ _ _ hu h)
      (fun _ _ h => IsTrans.trans _ _ _ hu h) fun _ h => h

theorem register_dropPods {s : SchedulerHandler} (n : String) (keys : List String) :
    (s.dropPods n keys).register = s.register := by
  have hfuncs : (fun f : String => (s.dropPods n keys).funcs[f]?.map FuncStatus.func) =
      fun f : String => s.funcs[f]?.map FuncStatus.func := by
    funext f
    show (s.funcs.map _)[f]?.map FuncStatus.func = _
    rw [Std.ExtTreeMap.getElem?_map, Option.map_map]
    rfl
  exact Prod.ext hfuncs rfl

theorem thinning_syncWorker (w : WorkerPod) : Thinning D A (syncWorker w) := by
  refine Moves.bind Moves.get fun s => ?_
  split
  next =>
    split
    next => exact Moves.pure ()
    next => exact Thinning.modify fun _ => rfl
  next => exact Thinning.modify fun _ => rfl
  next => exact Moves.crash trivial

theorem syncWorker_infallible (w : WorkerPod) : Infallible (syncWorker w) := by
  refine Infallible.bind Infallible.get fun s => ?_
  split
  next =>
    split
    next => exact Infallible.pure ()
    next => exact Infallible.modify _
  next => exact Infallible.modify _
  next => exact Infallible.crash _

/-- **A restart of the node agent** ends the reservations of a known node and lifts its marks. -/
theorem reconcile_thins (n : String) (node : Node) (s : SchedulerHandler) :
    (reconcileNodeAfterNodeAgentRestart n node).wp
      (fun _ t => Thins (fun m _ => m = n) A s t ∧
        ((s.nodes[n]?).isSome → ∀ f, ¬ SnapshotPending t f n))
      (fun _ _ => False) (fun _ => True) s := by
  simp only [reconcileNodeAfterNodeAgentRestart]
  rw [wp_bind, wp_get]
  split
  next hnone =>
    refine ⟨Std.Refl.refl s, fun hn => ?_⟩
    rw [hnone] at hn
    cases hn
  next ns _ =>
    rw [wp_bind, wp_modify, wp_bind]
    refine wp_fault fun available _ => ?_
    rw [wp_bind, wp_modify, wp_bind]
    have hdrop : Thins (fun m _ => m = n) A s (s.dropPods n (transientPods ns)) :=
      .of_register (register_dropPods n _)
    have hclear : ∀ {u : SchedulerHandler} {g : NodeStatus → NodeStatus},
        (∀ ns, (g ns).pendingPods = ∅) → Thins (fun m _ => m = n) A u (u.modifyNode n g) := fun hg =>
      thins_modifyNode (fun ns k p hp => by simp [hg] at hp) fun _ _ _ _ => Or.inr rfl
    refine wp_mono (Infallible.wp_of_moves (R := Thins (fun m _ => m = n) A) ?_
      (Moves.each fun q _ => thinning_syncWorker q.2) _) (fun _ u hu => ?_) (fun _ _ h => h) fun _ h => h
    · generalize (eraseAll (transientPods ns) ns.pods).toList = l
      induction l with
      | nil => exact Infallible.pure ()
      | cons q l ih => exact Infallible.bind (syncWorker_infallible q.2) fun _ => ih
    · rw [wp_modify]
      refine ⟨?_, fun _ f => pendingSnapshot_removePendingSnapshotsOn⟩
      exact IsTrans.trans _ _ _ hdrop (IsTrans.trans _ _ _ (hclear fun _ => rfl)
        (IsTrans.trans _ _ _ hu thins_removePendingSnapshotsOn))

/-- A node is reported again. -/
theorem processNodeModified_thins (node : Node) (s : SchedulerHandler) :
    (processNodeModified node).wp
      (fun _ t => Thins (fun m _ => Restarted s node ∧ m = node.name) A s t ∧
        (Restarted s node → ∀ f, ¬ SnapshotPending t f node.name))
      (fun _ t => Thins (fun m _ => Restarted s node ∧ m = node.name) A s t ∧ ¬ Restarted s node)
      (fun _ => True) s := by
  have hupdate : (updateNode node).wp
      (fun _ t => Thins (fun m _ => Restarted s node ∧ m = node.name) A s t ∧
        (t.nodes[node.name]?).isSome)
      (fun _ t => Thins (fun m _ => Restarted s node ∧ m = node.name) A s t ∧
        s.nodes[node.name]? = none) (fun _ => True) s := by
    simp only [updateNode]
    rw [wp_bind, wp_get]
    split
    next hn =>
      rw [Std.ExtTreeMap.contains_eq_isSome_getElem?] at hn
      refine ⟨.of_register (register_modifyNode fun _ => rfl), ?_⟩
      show ((s.nodes.modify node.name _)[node.name]?).isSome
      rw [BTreeMap.get_modify_self, Option.isSome_map]
      exact hn
    next hn =>
      rw [Std.ExtTreeMap.contains_eq_isSome_getElem?, Bool.not_eq_true,
        Option.isSome_eq_false_iff, Option.isNone_iff_eq_none] at hn
      exact ⟨Std.Refl.refl s, hn⟩
  simp only [processNodeModified]
  rw [wp_bind, wp_get, wp_bind]
  refine wp_mono hupdate (fun _ u hu => ?_) (fun _ t ht => ?_) fun _ h => h
  · have hrestarted : (s.nodes[node.name]?.any (fun ns => ns.state == .nodeAgentConnected) &&
        node.state == .nodeAgentReady) = true ↔ Restarted s node := by
      simp [Restarted, Option.any_eq_true]
    split
    next h =>
      have hr := hrestarted.mp h
      refine wp_mono (reconcile_thins (A := A) node.name node u) (fun _ t ht => ?_)
        (fun _ _ h => h.elim) fun _ h => h
      exact ⟨IsTrans.trans _ _ _ hu.1 (ht.1.mono (fun m _ hm => ⟨hr, hm⟩) fun _ _ h => h),
        fun _ => ht.2 hu.2⟩
    next h => exact ⟨hu.1, fun hr => absurd (hrestarted.mpr hr) h⟩
  · refine ⟨ht.1, ?_⟩
    rintro ⟨⟨ns, hns, -⟩, -⟩
    rw [ht.2] at hns
    cases hns

/-! ### Functions -/

theorem thinning_addFunc {spec : Function} (hplain : spec.Plain) : Thinning D A (addFunc spec) := by
  refine Moves.get_bind fun s => ?_
  split
  next => exact Std.Refl.refl s
  next =>
    refine ⟨fun f func hf => ?_, fun _ _ _ hp => hp, fun _ _ _ hp => Or.inl hp,
      fun _ _ hmark => Or.inl hmark⟩
    simp only [ledger, BTreeMap.get_insert] at hf
    split at hf
    next h =>
      obtain rfl := Option.some.inj hf
      exact Or.inr ⟨hplain, h.symm⟩
    next => exact Or.inl hf

theorem register_endStandbyBilling {s : SchedulerHandler} (env : Env) (f : String) :
    (s.endStandbyBilling env f).register = s.register := by
  simp only [endStandbyBilling]
  split
  next => rfl
  next => rfl

theorem thinning_removeFunc (env : Env) (spec : Function) : Thinning D A (removeFunc env spec) := by
  refine Moves.bind Moves.get fun s => ?_
  split
  next =>
    refine Moves.bind (Moves.modify fun t => ?_) fun _ =>
      Thinning.modify fun _ => register_endStandbyBilling env _
    refine ⟨fun f func hf => ?_, fun _ _ _ hp => hp, fun _ _ _ hp => Or.inl hp, fun f n hmark => ?_⟩
    · simp only [ledger, BTreeMap.get_erase] at hf
      split at hf
      next => cases hf
      next => exact Or.inl hf
    · obtain ⟨nodes, hnodes, hmem⟩ := hmark
      exact Or.inl ⟨nodes, (BTreeMap.get_erase_eq_some.mp hnodes).2, hmem⟩
  next => exact Moves.throw _

theorem thinning_stopWorker (pod : FuncPod) : Thinning D A (stopWorker pod) := by
  refine Moves.bind Moves.get fun s => ?_
  split
  next => exact Moves.throw _
  next => exact Thinning.modify fun _ => rfl

theorem thinning_processRemoveFunc (env : Env) (spec : Function) :
    Thinning D A (processRemoveFunc env spec) := by
  refine Moves.bind (Moves.bind Moves.get fun s => ?_) fun hasPod => ?_
  · refine Moves.bind (Moves.each fun w _ => ?_) fun _ => Moves.pure _
    refine Moves.bind (Moves.attempt (thinning_stopWorker _)) fun r => ?_
    split
    next => exact Moves.pure ()
    next => exact Thinning.modify fun _ => rfl
  · split
    next => exact Moves.pure ()
    next =>
      refine Moves.bind Moves.get fun t => ?_
      split
      next => exact Moves.pure ()
      next =>
        refine Moves.each fun n _ => Moves.ignore (Moves.bind Moves.get fun u => ?_)
        dsimp only
        split
        next => exact Moves.pure ()
        next =>
          split
          next => exact Moves.throw _
          next => exact Thinning.modify fun _ => rfl

/-! ### Snapshots -/

theorem thinning_startStandbyBilling (env : Env) (f : String) :
    Thinning D A (startStandbyBilling env f) := by
  refine Moves.bind Moves.get fun s => ?_
  split
  next => exact Moves.pure ()
  next =>
    split
    next => exact Moves.pure ()
    next =>
      dsimp only
      split
      next => exact Moves.pure ()
      next =>
        split
        next => exact Moves.crash trivial
        next =>
          split
          next => exact Thinning.modify fun _ => rfl
          next => exact Moves.pure ()

theorem thinning_addSnapshot (env : Env) (snapshot : FuncSnapshot) :
    Thinning D A (addSnapshot env snapshot) := by
  refine Moves.bind (Moves.modify fun _ => thins_removePendingSnapshot) fun _ => ?_
  refine Moves.bind (Thinning.modify fun _ => rfl) fun _ => ?_
  split
  next => exact thinning_startStandbyBilling env _
  next => exact Moves.pure ()

theorem thinning_updateSnapshot (env : Env) (snapshot : FuncSnapshot) :
    Thinning D A (updateSnapshot env snapshot) := by
  refine Moves.bind Moves.get fun s => ?_
  dsimp only
  split
  next =>
    refine Moves.bind (Thinning.modify fun _ => rfl) fun _ => ?_
    split
    next => exact thinning_startStandbyBilling env _
    next => exact Moves.pure ()
  next => exact Moves.pure ()

theorem thinning_listDone (env : Env) (listType : ListType) : Thinning D A (listDone env listType) := by
  refine Moves.bind (Thinning.modify fun _ => ?_) fun _ => Moves.bind Moves.get fun s => ?_
  · cases listType <;> rfl
  · split
    next =>
      refine Moves.bind (Thinning.modify fun _ => rfl) fun _ => Moves.bind ?_ fun _ =>
        Thinning.modify fun _ => rfl
      exact Moves.bind Moves.get fun t => Moves.each fun f _ => thinning_startStandbyBilling env f
    next => exact Moves.pure ()

/-! ### Answers -/

theorem freeNodeResource_thins (n : String) (r : NodeResources) (s : SchedulerHandler) :
    (freeNodeResource n r).wp (fun _ t => Thins D A s t) (fun _ _ => False) (fun _ => True) s := by
  simp only [freeNodeResource]
  rw [wp_bind, wp_get]
  split
  next => exact Std.Refl.refl s
  next ns hns =>
    rw [wp_bind]
    refine wp_fault fun ns' hns' => ?_
    rw [wp_modify]
    have hpending := freeResource_pendingPods hns'
    exact thins_insertNode hns (fun k p hp => hpending ▸ hp) fun k p hp => Or.inl (hpending ▸ hp)

theorem thinning_freeNodeResource (n : String) (r : NodeResources) :
    Thinning D A (freeNodeResource n r) := fun s =>
  wp_mono (freeNodeResource_thins n r s) (fun _ _ h => h) (fun _ _ h => h.elim) fun _ h => h

theorem register_restoreTerminated {s : SchedulerHandler} (k : String) :
    (s.restoreTerminated k).register = s.register := by
  simp only [restoreTerminated]
  split
  next => rfl
  next w _ =>
    split
    next => rfl
    next =>
      split
      next =>
        have hnode : (s.modifyNode w.pod.nodename (·.removeStoppingPod k)).register = s.register :=
          register_modifyNode fun _ => rfl
        exact (register_modifyFunc (g := (·.removeStoppingPod k)) fun _ => rfl).trans hnode
      next => rfl

theorem thinning_restoreTerminated (keys : List String) :
    Thinning D A (modify (keys.foldl SchedulerHandler.restoreTerminated ·)) :=
  Thinning.modify fun s => register_foldl (fun _ k => register_restoreTerminated k) keys s

theorem thinning_failOneLease (env : Env) (f : String) : Thinning D A (failOneLease env f) := by
  refine Moves.bind Moves.get fun s => ?_
  split
  next => exact Moves.pure ()
  next =>
    split
    next => exact Moves.pure ()
    next =>
      refine Moves.bind (Thinning.modify fun _ => register_modifyFunc fun _ => rfl) fun _ => ?_
      simp only [sendIfAlive]
      split
      next => exact Thinning.modify fun _ => rfl
      next => exact Moves.pure ()

/-- The answer to a resume. -/
theorem thinning_processResumeWorkerComplete (env : Env) (rpc : ResumeRpc) (result : Option Error)
    (hD : Undoes result → D rpc.nodename rpc.podKey) :
    Thinning D A (processResumeWorkerComplete env rpc result) := by
  rcases result with _ | e
  · exact Moves.pure ()
  · simp only [processResumeWorkerComplete]
    split
    next hsafe =>
      have hend := hD ⟨e, rfl, hsafe⟩
      refine Moves.bind (thinning_freeNodeResource _ _) fun _ => ?_
      refine Moves.bind (Moves.modify fun _ => thins_dropNodePending hend) fun _ => ?_
      refine Moves.bind (Moves.bind Moves.get fun s => ?_) fun _ => thinning_restoreTerminated _
      split
      next => exact Moves.crash trivial
      next =>
        refine Moves.bind (Thinning.modify fun _ => rfl) fun _ => ?_
        refine Moves.bind (Thinning.modify fun _ => register_modifyFunc fun _ => rfl) fun _ => ?_
        exact thinning_failOneLease env _
    next => exact Moves.crash trivial

/-- The answer to a creation lifts the mark of a snapshot. -/
theorem processStartWorkerComplete_thins (env : Env) (rpc : StartRpc) (result : Option Error)
    (hD : Undoes result → D rpc.nodename rpc.podkey) (s : SchedulerHandler) :
    (processStartWorkerComplete env rpc result).wp
      (fun _ t => Thins D (fun _ _ => False) s t ∧ (Undoes result → rpc.createType = .snapshot →
        ¬ SnapshotPending t rpc.funcid rpc.nodename))
      (fun _ t => Thins D (fun _ _ => False) s t ∧ (Undoes result → rpc.createType = .snapshot →
        ¬ SnapshotPending t rpc.funcid rpc.nodename)) (fun _ => True) s := by
  rcases result with _ | e
  · refine ⟨Std.Refl.refl s, ?_⟩
    rintro ⟨e, he, -⟩
    cases he
  · simp only [processStartWorkerComplete]
    split
    next hsafe =>
      rw [wp_bind, wp_modify, wp_bind]
      have hdrop : Thins D (fun _ _ => False) s (s.dropNodePending rpc.nodename rpc.podkey) :=
        thins_dropNodePending (hD ⟨e, rfl, hsafe⟩)
      refine wp_mono (freeNodeResource_thins (D := D) (A := fun _ _ => False) _ _ _) (fun _ u hu => ?_)
        (fun _ _ h => h.elim) fun _ h => h
      rw [wp_bind, wp_modify, wp_bind, wp_modify]
      let v := u.dropFuncPending rpc.funcid rpc.podkey
      let x := if rpc.createType = .snapshot then v.removePendingSnapshot rpc.funcid rpc.nodename else v
      have hv : Thins D (fun _ _ => False) u v := .of_register (register_modifyFunc fun _ => rfl)
      have hx : Thins D (fun _ _ => False) v x ∧ (rpc.createType = .snapshot →
          ¬ SnapshotPending x rpc.funcid rpc.nodename) := by
        by_cases htype : rpc.createType = .snapshot
        · rw [show x = v.removePendingSnapshot rpc.funcid rpc.nodename from if_pos htype]
          exact ⟨thins_removePendingSnapshot, fun _ hmark =>
            (pendingSnapshot_removePendingSnapshot.mp hmark).2 ⟨rfl, rfl⟩⟩
        · rw [show x = v from if_neg htype]
          exact ⟨Std.Refl.refl v, fun h => absurd h htype⟩
      have h : Thins D (fun _ _ => False) s x :=
        IsTrans.trans _ _ _ hdrop (IsTrans.trans _ _ _ hu (IsTrans.trans _ _ _ hv hx.1))
      have hrest : Thinning D (fun _ _ => False) (do
          modify (rpc.terminated.foldl SchedulerHandler.restoreTerminated ·)
          if rpc.createType = .snapshot then addSnapshotTask env rpc.nodename rpc.funcid
          else return ()) := by
        refine Moves.bind (thinning_restoreTerminated _) fun _ => ?_
        split
        next => exact thinning_addSnapshotTask env _ _
        next => exact Moves.pure ()
      have hend : ∀ t, Thins D (fun _ _ => False) x t → Thins D (fun _ _ => False) s t ∧
          (Undoes (some e) → rpc.createType = .snapshot →
            ¬ SnapshotPending t rpc.funcid rpc.nodename) := fun t ht =>
        ⟨IsTrans.trans _ _ _ h ht, fun _ htype hmark =>
          hx.2 htype ((ht.marks _ _ hmark).resolve_right id)⟩
      exact wp_mono (hrest x) (fun _ t ht => hend t ht) (fun _ t ht => hend t ht) fun _ h => h
    next => trivial

/-- The answer about a duplicate lifts the mark of the snapshot. -/
theorem processCleanupDuplicateSnapshot_thins (rpc : StartRpc) (hD : D rpc.nodename rpc.podkey)
    (s : SchedulerHandler) :
    (processCleanupDuplicateSnapshot rpc).wp
      (fun _ t => Thins D (fun _ _ => False) s t ∧ ¬ SnapshotPending t rpc.funcid rpc.nodename)
      (fun _ t => Thins D (fun _ _ => False) s t ∧ ¬ SnapshotPending t rpc.funcid rpc.nodename)
      (fun _ => True) s := by
  have hrest : Thinning D (fun _ _ => False) (do
      modify (·.dropNodePending rpc.nodename rpc.podkey)
      freeNodeResource rpc.nodename rpc.resources
      modify (·.dropFuncPending rpc.funcid rpc.podkey)
      each restoreDuplicate rpc.terminated) := by
    refine Moves.bind (Moves.modify fun _ => thins_dropNodePending hD) fun _ => ?_
    refine Moves.bind (thinning_freeNodeResource _ _) fun _ => ?_
    refine Moves.bind (Thinning.modify fun _ => register_modifyFunc fun _ => rfl) fun _ => ?_
    refine Moves.each fun k _ => Moves.bind Moves.get fun t => ?_
    split
    next => exact Moves.pure ()
    next w _ =>
      refine Moves.bind (Thinning.modify fun u => ?_) fun _ => ?_
      · exact (register_modifyFunc (g := (·.removeStoppingPod k)) fun _ => rfl).trans
          (register_modifyNode (g := (·.removeStoppingPod k)) fun _ => rfl)
      · refine Moves.bind Moves.get fun v => ?_
        split
        next => exact Moves.pure ()
        next =>
          refine Moves.ignore (Moves.bind (Moves.bind Moves.get fun v => ?_) fun _ => ?_)
          · split
            next => exact Moves.crash trivial
            next => exact Moves.pure _
          · refine Moves.bind (thinning_liftFault _) fun r => ?_
            refine Moves.bind (Thinning.modify fun _ =>
              register_modifyNode fun _ => rfl) fun _ => ?_
            rcases r with ⟨e | r, nr'⟩
            · exact Moves.throw e
            · exact Moves.pure r
  have hend : ∀ t, Thins D (fun _ _ => False) (s.removePendingSnapshot rpc.funcid rpc.nodename) t →
      Thins D (fun _ _ => False) s t ∧ ¬ SnapshotPending t rpc.funcid rpc.nodename := fun t ht =>
    ⟨IsTrans.trans _ _ _ thins_removePendingSnapshot ht, fun hmark =>
      (pendingSnapshot_removePendingSnapshot.mp ((ht.marks _ _ hmark).resolve_right id)).2 ⟨rfl, rfl⟩⟩
  exact wp_mono (hrest _) (fun _ t ht => hend t ht) (fun _ t ht => hend t ht) fun _ h => h

end Procedures

end Inferx
