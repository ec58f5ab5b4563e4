import Inferx.Scheduler.Booked
import Inferx.Scheduler.Coherence

/-!
# What is left of an old epoch

A node that comes back with another epoch is cleaned out: its pods are deleted, as their
deletion would be reported, then its snapshots, then the node. In a coherent state all
maps let go of it and of nothing else, but for one: a pod whose function is not known is
parked in `funcPods`, and no deletion takes it out of there.
-/

namespace Inferx

open Proc SchedulerHandler

/-! ## Entries -/

namespace SchedulerHandler

/-- What a function has reserved for a pod. -/
def reservation (s : SchedulerHandler) (f k : String) : Option PendingPod :=
  s.funcs[f]?.bind fun fs => fs.pendingPods[k]?

/-- Has a function marked the pod as being stopped? -/
def StopMarked (s : SchedulerHandler) (f k : String) : Prop :=
  ∃ fs, s.funcs[f]? = some fs ∧ k ∈ fs.stoppingPods

/-- Is a snapshot of the function being made on the node? -/
def PendingSnapshot (s : SchedulerHandler) (f n : String) : Prop :=
  ∃ nodes, s.pendingsnapshots[f]? = some nodes ∧ n ∈ nodes

/-- The key is not the one of a pod on the node. -/
def Elsewhere (s : SchedulerHandler) (n k : String) : Prop :=
  ∀ w, s.pods[k]? = some w → w.pod.nodename ≠ n

/-- A coherent state: the pod maps are, the functions reserve what their nodes reserve and
stop pods of their own, and both sides of the schedule of snapshots say the same. -/
structure EntriesCoherent (s : SchedulerHandler) : Prop where
  /-- the pod maps can be told apart -/
  sound : s.index.Sound
  /-- the pod maps agree -/
  coherent : s.index.Coherent
  /-- what a node reserves is its own, and the function does not reserve it elsewhere -/
  held : ∀ (n k : String) ns p, s.nodes[n]? = some ns → ns.pendingPods[k]? = some p →
    p.nodeName = n ∧
    ∀ q, s.reservation p.funcId k = some q → q = p
  /-- a reservation for a pod is on the node of the pod -/
  pending : ∀ f k p w, s.reservation f k = some p → s.pods[k]? = some w →
    p.nodeName = w.pod.nodename
  /-- a function stops its own pods -/
  stopping : ∀ f k w, s.StopMarked f k → s.pods[k]? = some w → w.pod.funcKey = f
  /-- the schedule of snapshots has two sides -/
  sched : ∀ f n, s.snapshotSched.get12 f n = s.snapshotSched.get21 n f

/-- The node reserves it for the function too. -/
def HeldBy (s : SchedulerHandler) (n f k : String) : Prop :=
  ∃ ns q, s.nodes[n]? = some ns ∧ ns.pendingPods[k]? = some q ∧ q.funcId = f

/-- A pod of the function is there, on the node. -/
def PodOn (s : SchedulerHandler) (n f k : String) : Prop :=
  ∃ w, s.pods[k]? = some w ∧ w.pod.nodename = n ∧ w.pod.funcKey = f

/-- What a function reserves on the node, the node reserves for it too, or it is for a pod that is
there. -/
def NoneReservedAlone (s : SchedulerHandler) (n : String) : Prop :=
  ∀ f k p, s.reservation f k = some p → p.nodeName = n → s.HeldBy n f k ∨ s.PodOn n f k

/-- A reservation on another node, or one that the node does not know of and that is for no pod. -/
def Unswept (s : SchedulerHandler) (n f k : String) (p : PendingPod) : Prop :=
  p.nodeName ≠ n ∨ ¬ s.HeldBy n f k ∧ ¬ s.PodOn n f k

variable {s : SchedulerHandler} {f g k : String}

theorem get_modifyFunc (h : FuncStatus → FuncStatus) :
    (s.modifyFunc g h).funcs[f]? = if f = g then s.funcs[f]?.map h else s.funcs[f]? :=
  BTreeMap.get_modify ..

/-- What is said of the record of a function, after one record has been changed. -/
theorem exists_modifyFunc {h : FuncStatus → FuncStatus} {P : FuncStatus → Prop} :
    (∃ fs, (s.modifyFunc g h).funcs[f]? = some fs ∧ P fs) ↔
      if f = g then ∃ fs, s.funcs[f]? = some fs ∧ P (h fs)
      else ∃ fs, s.funcs[f]? = some fs ∧ P fs := by
  rw [get_modifyFunc]
  split
  next =>
    constructor
    · rintro ⟨_, hget, hP⟩
      obtain ⟨fs, hfs, rfl⟩ := Option.map_eq_some_iff.mp hget
      exact ⟨fs, hfs, hP⟩
    · rintro ⟨fs, hfs, hP⟩
      exact ⟨h fs, Option.map_eq_some_iff.mpr ⟨fs, hfs, rfl⟩, hP⟩
  next => exact Iff.rfl

theorem reservation_eq {p : PendingPod} : s.reservation f k = some p ↔
    ∃ fs, s.funcs[f]? = some fs ∧ fs.pendingPods[k]? = some p := Option.bind_eq_some_iff

theorem reservation_modifyFunc {h : FuncStatus → FuncStatus} {p : PendingPod} :
    (s.modifyFunc g h).reservation f k = some p ↔
      if f = g then ∃ fs, s.funcs[f]? = some fs ∧ (h fs).pendingPods[k]? = some p
      else s.reservation f k = some p := by
  rw [reservation_eq, reservation_eq]
  exact exists_modifyFunc (P := fun fs => fs.pendingPods[k]? = some p)

theorem stopMarked_modifyFunc {h : FuncStatus → FuncStatus} :
    (s.modifyFunc g h).StopMarked f k ↔
      if f = g then ∃ fs, s.funcs[f]? = some fs ∧ k ∈ (h fs).stoppingPods else s.StopMarked f k :=
  exists_modifyFunc (P := fun fs => k ∈ fs.stoppingPods)

theorem funcHolds_modifyFunc {h : FuncStatus → FuncStatus} {w : WorkerPod} :
    FuncHolds (s.modifyFunc g h) f k w ↔
      if f = g then ∃ fs, s.funcs[f]? = some fs ∧ (h fs).pods[k]? = some w else FuncHolds s f k w :=
  exists_modifyFunc (P := fun fs => fs.pods[k]? = some w)

theorem pendingSnapshot_removePendingSnapshot {n m : String} :
    (s.removePendingSnapshot g n).PendingSnapshot f m ↔
      s.PendingSnapshot f m ∧ ¬ (f = g ∧ m = n) := by
  unfold removePendingSnapshot PendingSnapshot
  rcases hg : s.pendingsnapshots[g]? with _ | nodes
  · constructor
    · rintro ⟨nodes, hget, hmem⟩
      refine ⟨⟨nodes, hget, hmem⟩, ?_⟩
      rintro ⟨rfl, -⟩
      rw [hg] at hget
      cases hget
    · exact And.left
  · dsimp only
    by_cases hf : f = g
    · subst hf
      rw [hg]
      split
      next hempty =>
        rw [BTreeMap.get_erase, if_pos rfl]
        constructor
        · rintro ⟨_, hget, -⟩
          cases hget
        · rintro ⟨⟨nodes', hget, hmem⟩, hne⟩
          obtain rfl := Option.some.inj hget
          have hin : m ∈ nodes.erase n := Finset.mem_erase.mpr ⟨fun h => hne ⟨rfl, h⟩, hmem⟩
          rw [hempty] at hin
          exact absurd hin (Finset.notMem_empty m)
      next =>
        rw [BTreeMap.get_insert, if_pos rfl]
        constructor
        · rintro ⟨nodes', hget, hmem⟩
          obtain rfl := Option.some.inj hget
          obtain ⟨hne, hmem⟩ := Finset.mem_erase.mp hmem
          exact ⟨⟨nodes, rfl, hmem⟩, fun h => hne h.2⟩
        · rintro ⟨⟨nodes', hget, hmem⟩, hne⟩
          obtain rfl := Option.some.inj hget
          exact ⟨_, rfl, Finset.mem_erase.mpr ⟨fun h => hne ⟨rfl, h⟩, hmem⟩⟩
    · have hother : ∀ m' : BTreeMap String (Finset String),
          (m' = s.pendingsnapshots.erase g ∨ ∃ v, m' = s.pendingsnapshots.insert g v) →
          m'[f]? = s.pendingsnapshots[f]? := by
        rintro m' (rfl | ⟨v, rfl⟩)
        · exact BTreeMap.get_erase_of_ne hf
        · exact BTreeMap.get_insert_of_ne hf
      split
      next =>
        rw [hother _ (.inl rfl)]
        simp [hf]
      next =>
        rw [hother _ (.inr ⟨_, rfl⟩)]
        simp [hf]

end SchedulerHandler

/-! ## Sweeping -/

/-- The record of a node after pods and reservations have left it. -/
structure NodeStatus.Leaves (ns ns' : NodeStatus) : Prop where
  /-- the same node -/
  node : ns'.node = ns.node
  /-- no reservation has come -/
  pendingPods : ∀ (k : String) (p : PendingPod), ns'.pendingPods[k]? = some p →
    ns.pendingPods[k]? = some p
  /-- no pod has come -/
  pods : ∀ (k : String) (w : WorkerPod), ns'.pods[k]? = some w → ns.pods[k]? = some w

namespace NodeStatus.Leaves

variable {ns₁ ns₂ ns₃ : NodeStatus}

theorem refl (ns : NodeStatus) : ns.Leaves ns := ⟨rfl, fun _ _ h => h, fun _ _ h => h⟩

theorem trans (h : ns₁.Leaves ns₂) (h' : ns₂.Leaves ns₃) : ns₁.Leaves ns₃ where
  node := h'.node.trans h.node
  pendingPods k p hp := h.pendingPods k p (h'.pendingPods k p hp)
  pods k w hw := h.pods k w (h'.pods k w hw)

end NodeStatus.Leaves

/-- Between `s` and `u`, entries of the node `n` have gone and no others, and a pod that has
gone is in no pool, and neither marked nor reserved by its function. What is reserved still has
`B`. -/
structure Sweeping (n : String) (B : String → String → Prop) (s u : SchedulerHandler) : Prop where
  /-- no pod has come -/
  sub : ∀ (k : String) (w : WorkerPod), u.pods[k]? = some w → s.pods[k]? = some w
  /-- the idle pool of other pods -/
  idle : ∀ k, s.Elsewhere n k → (k ∈ u.idlePods ↔ k ∈ s.idlePods)
  /-- the terminating marks of other pods -/
  terminating : ∀ k, s.Elsewhere n k → u.terminatingPods[k]? = s.terminatingPods[k]?
  /-- the pods of other nodes that functions hold -/
  holds : ∀ f k w, w.pod.nodename ≠ n → (FuncHolds u f k w ↔ FuncHolds s f k w)
  /-- no reservation has come -/
  reserved_sub : ∀ f k p, u.reservation f k = some p → s.reservation f k = some p ∧ B f k
  /-- the reservations that are not swept out -/
  reserved : ∀ f k p, s.Unswept n f k p →
    (u.reservation f k = some p ↔ s.reservation f k = some p)
  /-- the stop marks of other pods -/
  stopping : ∀ f k, s.Elsewhere n k → (u.StopMarked f k ↔ s.StopMarked f k)
  /-- no stop mark has come -/
  stopping_sub : ∀ f k, u.StopMarked f k → s.StopMarked f k
  /-- the snapshots that are being made elsewhere -/
  pendingSnapshot : ∀ f m, m ≠ n → (u.PendingSnapshot f m ↔ s.PendingSnapshot f m)
  /-- the other nodes -/
  nodes : ∀ m, m ≠ n → u.nodes[m]? = s.nodes[m]?
  /-- the node has no new reservation -/
  record : ∀ ns' : NodeStatus, u.nodes[n]? = some ns' → ∃ ns, s.nodes[n]? = some ns ∧ ns.Leaves ns'
  /-- what is parked for other nodes -/
  nodePods : ∀ m, m ≠ n → u.nodePods[m]? = s.nodePods[m]?
  /-- what is parked for functions -/
  funcPods : u.funcPods = s.funcPods
  /-- the schedule of snapshots -/
  sched : u.snapshotSched = s.snapshotSched ∨ u.snapshotSched = s.snapshotSched.removeById2 n
  /-- the pods that have gone -/
  gone : ∀ k w, s.pods[k]? = some w → u.pods[k]? = none →
    k ∉ u.idlePods ∧ u.terminatingPods[k]? = none ∧ ¬ u.StopMarked w.pod.funcKey k ∧
      u.reservation w.pod.funcKey k = none

namespace Sweeping

variable {n : String} {B : String → String → Prop} {s u v : SchedulerHandler}

theorem refl (n : String) (s : SchedulerHandler) : Sweeping n (fun _ _ => True) s s where
  sub _ _ h := h
  idle _ _ := Iff.rfl
  terminating _ _ := rfl
  holds _ _ _ _ := Iff.rfl
  reserved_sub _ _ _ h := ⟨h, trivial⟩
  reserved _ _ _ _ := Iff.rfl
  stopping _ _ _ := Iff.rfl
  stopping_sub _ _ h := h
  pendingSnapshot _ _ _ := Iff.rfl
  nodes _ _ := rfl
  record ns h := ⟨ns, h, .refl ns⟩
  nodePods _ _ := rfl
  funcPods := rfl
  sched := .inl rfl
  gone k w hw hnone := by
    rw [hw] at hnone
    cases hnone

/-- A pod is forgotten that has already left the pools. -/
theorem erasePod (h : Sweeping n B s u) {key : String} (hidle : key ∉ u.idlePods)
    (hterm : u.terminatingPods[key]? = none)
    (hstop : ∀ w, s.pods[key]? = some w → ¬ u.StopMarked w.pod.funcKey key ∧
      u.reservation w.pod.funcKey key = none) :
    Sweeping n B s { u with pods := u.pods.erase key } where
  sub k w hw := h.sub k w (BTreeMap.get_erase_eq_some.mp hw).2
  idle := h.idle
  terminating := h.terminating
  holds := h.holds
  reserved_sub := h.reserved_sub
  reserved := h.reserved
  stopping := h.stopping
  stopping_sub := h.stopping_sub
  pendingSnapshot := h.pendingSnapshot
  nodes := h.nodes
  record := h.record
  nodePods := h.nodePods
  funcPods := h.funcPods
  sched := h.sched
  gone k w hw hnone := by
    by_cases hk : k = key
    · subst hk
      exact ⟨hidle, hterm, hstop w hw⟩
    · exact h.gone k w hw ((BTreeMap.get_erase_of_ne hk).symm.trans hnone)

/-- A pod of the node leaves the pools. -/
theorem leavePools (h : Sweeping n B s u) {key : String} {w : WorkerPod}
    (hw : s.pods[key]? = some w)
    (hn : w.pod.nodename = n) :
    Sweeping n B s { u with
      idlePods := u.idlePods.pop key, terminatingPods := u.terminatingPods.erase key } where
  sub := h.sub
  idle k hk := by
    have hne : k ≠ key := fun heq => hk w (heq ▸ hw) hn
    rw [LruCache.mem_pop, h.idle k hk]
    exact and_iff_right hne
  terminating k hk := by
    have hne : k ≠ key := fun heq => hk w (heq ▸ hw) hn
    exact (BTreeMap.get_erase_of_ne hne).trans (h.terminating k hk)
  holds := h.holds
  reserved_sub := h.reserved_sub
  reserved := h.reserved
  stopping := h.stopping
  stopping_sub := h.stopping_sub
  pendingSnapshot := h.pendingSnapshot
  nodes := h.nodes
  record := h.record
  nodePods := h.nodePods
  funcPods := h.funcPods
  sched := h.sched
  gone k v hv hnone := by
    obtain ⟨hidle, hterm, hstop⟩ := h.gone k v hv hnone
    refine ⟨fun hmem => hidle (LruCache.mem_pop.mp hmem).2, ?_, hstop⟩
    rw [BTreeMap.get_erase]
    split
    next => rfl
    next => exact hterm

/-- The node is written, without new reservations. -/
theorem setNodes (h : Sweeping n B s u) {nodes : BTreeMap String NodeStatus}
    (hother : ∀ m, m ≠ n → nodes[m]? = u.nodes[m]?)
    (hrecord : ∀ ns' : NodeStatus, nodes[n]? = some ns' → ∃ ns, u.nodes[n]? = some ns ∧
      ns.Leaves ns') :
    Sweeping n B s { u with nodes } where
  sub := h.sub
  idle := h.idle
  terminating := h.terminating
  holds := h.holds
  reserved_sub := h.reserved_sub
  reserved := h.reserved
  stopping := h.stopping
  stopping_sub := h.stopping_sub
  pendingSnapshot := h.pendingSnapshot
  nodes m hm := (hother m hm).trans (h.nodes m hm)
  record ns' hns' := by
    obtain ⟨ns, hns, hleaves⟩ := hrecord ns' hns'
    obtain ⟨ns₀, hns₀, hleaves₀⟩ := h.record ns hns
    exact ⟨ns₀, hns₀, hleaves₀.trans hleaves⟩
  nodePods := h.nodePods
  funcPods := h.funcPods
  sched := h.sched
  gone := h.gone

/-- A function lets go of entries of the node. -/
theorem modifyFunc (h : Sweeping n B s u) {g : String} {r : FuncStatus → FuncStatus}
    (hpods : ∀ (fs : FuncStatus) (k : String) (w : WorkerPod), (r fs).pods[k]? = some w →
      fs.pods[k]? = some w)
    (hpods' : ∀ (k : String) (w : WorkerPod), w.pod.nodename ≠ n → FuncHolds s g k w →
      ∀ fs : FuncStatus, fs.pods[k]? = some w → (r fs).pods[k]? = some w)
    (hpending : ∀ (fs : FuncStatus) (k : String) (p : PendingPod), (r fs).pendingPods[k]? = some p →
      fs.pendingPods[k]? = some p)
    (hpending' : ∀ (k : String) (p : PendingPod), s.Unswept n g k p → s.reservation g k = some p →
      ∀ fs : FuncStatus, fs.pendingPods[k]? = some p → (r fs).pendingPods[k]? = some p)
    (hstop : ∀ (fs : FuncStatus) (k : String), k ∈ (r fs).stoppingPods → k ∈ fs.stoppingPods)
    (hstop' : ∀ k : String, s.Elsewhere n k → ∀ fs : FuncStatus, k ∈ fs.stoppingPods →
      k ∈ (r fs).stoppingPods) :
    Sweeping n B s (u.modifyFunc g r) where
  sub := h.sub
  idle := h.idle
  terminating := h.terminating
  holds f k w hw := by
    rw [funcHolds_modifyFunc]
    split
    next heq =>
      subst heq
      constructor
      · rintro ⟨fs, hfs, hget⟩
        exact (h.holds f k w hw).mp ⟨fs, hfs, hpods fs k w hget⟩
      · intro hs
        obtain ⟨fs, hfs, hget⟩ := (h.holds f k w hw).mpr hs
        exact ⟨fs, hfs, hpods' k w hw hs fs hget⟩
    next => exact h.holds f k w hw
  reserved_sub f k p hp := by
    rw [reservation_modifyFunc] at hp
    split at hp
    next heq =>
      obtain ⟨fs, hfs, hget⟩ := hp
      exact h.reserved_sub f k p (reservation_eq.mpr ⟨fs, hfs, hpending fs k p hget⟩)
    next => exact h.reserved_sub f k p hp
  reserved f k p hp := by
    rw [reservation_modifyFunc]
    split
    next heq =>
      subst heq
      constructor
      · rintro ⟨fs, hfs, hget⟩
        exact (h.reserved_sub f k p (reservation_eq.mpr ⟨fs, hfs, hpending fs k p hget⟩)).1
      · intro hs
        obtain ⟨fs, hfs, hget⟩ := reservation_eq.mp ((h.reserved f k p hp).mpr hs)
        exact ⟨fs, hfs, hpending' k p hp hs fs hget⟩
    next => exact h.reserved f k p hp
  stopping f k hk := by
    rw [stopMarked_modifyFunc]
    split
    next heq =>
      subst heq
      constructor
      · rintro ⟨fs, hfs, hmem⟩
        exact (h.stopping f k hk).mp ⟨fs, hfs, hstop fs k hmem⟩
      · intro hs
        obtain ⟨fs, hfs, hmem⟩ := (h.stopping f k hk).mpr hs
        exact ⟨fs, hfs, hstop' k hk fs hmem⟩
    next => exact h.stopping f k hk
  stopping_sub f k hf := by
    rw [stopMarked_modifyFunc] at hf
    split at hf
    next heq =>
      obtain ⟨fs, hfs, hmem⟩ := hf
      exact h.stopping_sub f k ⟨fs, hfs, hstop fs k hmem⟩
    next => exact h.stopping_sub f k hf
  pendingSnapshot := h.pendingSnapshot
  nodes := h.nodes
  record := h.record
  nodePods := h.nodePods
  funcPods := h.funcPods
  sched := h.sched
  gone k w hw hnone := by
    obtain ⟨hidle, hterm, hmark, hres⟩ := h.gone k w hw hnone
    refine ⟨hidle, hterm, fun hf => hmark ?_, Option.eq_none_iff_forall_ne_some.mpr fun p hp => ?_⟩
    · rw [stopMarked_modifyFunc] at hf
      split at hf
      next heq =>
        obtain ⟨fs, hfs, hmem⟩ := hf
        exact ⟨fs, hfs, hstop fs k hmem⟩
      next => exact hf
    · rw [reservation_modifyFunc] at hp
      split at hp
      next heq =>
        obtain ⟨fs, hfs, hget⟩ := hp
        exact absurd (hres.symm.trans (reservation_eq.mpr ⟨fs, hfs, hpending fs k p hget⟩)) nofun
      next => exact absurd (hres.symm.trans hp) nofun

end Sweeping

/-! ## What sweeps -/

/-- The part of the state that sweeping is about, but for the snapshots that are being made. -/
def SchedulerHandler.swept (s : SchedulerHandler) :=
  (s.pods, s.idlePods, s.terminatingPods, s.nodePods, s.funcPods, s.funcs, s.nodes, s.snapshotSched)

/-- The same, up to snapshots that are being made on the node. -/
structure SameBut (n : String) (s t : SchedulerHandler) : Prop where
  /-- the maps -/
  swept : t.swept = s.swept
  /-- the snapshots that are being made elsewhere -/
  pendingSnapshot : ∀ f m, m ≠ n → (t.PendingSnapshot f m ↔ s.PendingSnapshot f m)

instance (n : String) : IsPreorder SchedulerHandler (SameBut n) where
  refl _ := ⟨rfl, fun _ _ _ => Iff.rfl⟩
  trans _ _ _ h₁ h₂ := ⟨h₂.swept.trans h₁.swept, fun f m hm =>
    (h₂.pendingSnapshot f m hm).trans (h₁.pendingSnapshot f m hm)⟩

theorem SameBut.sweeping {n : String} {B : String → String → Prop} {s u v : SchedulerHandler}
    (h : Sweeping n B s u)
    (huv : SameBut n u v) : Sweeping n B s v := by
  obtain ⟨hswept, hsnapshot⟩ := huv
  simp only [SchedulerHandler.swept, Prod.mk.injEq] at hswept
  obtain ⟨hpods, hidle, hterm, hnodePods, hfuncPods, hfuncs, hnodes, hsched⟩ := hswept
  have hreserved : ∀ f k, v.reservation f k = u.reservation f k := fun f k => by
    unfold reservation
    rw [hfuncs]
  have hmark : ∀ f k, v.StopMarked f k ↔ u.StopMarked f k := fun f k => by
    unfold StopMarked
    rw [hfuncs]
  refine ⟨fun k w hw => h.sub k w (hpods ▸ hw), fun k hk => ?_, fun k hk => ?_, fun f k w hw => ?_,
    fun f k p hp => ?_, fun f k p hp => ?_, fun f k hk => (hmark f k).trans (h.stopping f k hk),
    fun f k hk => h.stopping_sub f k ((hmark f k).mp hk),
    fun f m hm => (hsnapshot f m hm).trans (h.pendingSnapshot f m hm), fun m hm => ?_,
      fun ns hns => ?_,
    fun m hm => ?_, hfuncPods.trans h.funcPods, hsched ▸ h.sched, fun k w hw hnone => ?_⟩
  · rw [hidle]
    exact h.idle k hk
  · rw [hterm]
    exact h.terminating k hk
  · unfold FuncHolds
    rw [hfuncs]
    exact h.holds f k w hw
  · rw [hreserved] at hp
    exact h.reserved_sub f k p hp
  · rw [hreserved]
    exact h.reserved f k p hp
  · rw [hnodes]
    exact h.nodes m hm
  · rw [hnodes] at hns
    exact h.record ns hns
  · rw [hnodePods]
    exact h.nodePods m hm
  · rw [hpods] at hnone
    obtain ⟨hgone, hgone', hgone''⟩ := h.gone k w hw hnone
    rw [hidle, hterm, hmark, hreserved]
    exact ⟨hgone, hgone', hgone''⟩

section Same

variable {n : String}

theorem sameBut_removePendingSnapshot (s : SchedulerHandler) (f : String) :
    SameBut n s (s.removePendingSnapshot f n) where
  swept := by
    unfold removePendingSnapshot
    split
    next => rfl
    next => rfl
  pendingSnapshot g m hm := by
    rw [pendingSnapshot_removePendingSnapshot]
    exact and_iff_left fun h => hm h.2

theorem sameBut_addSnapshotTask (env : Env) (m f : String) :
    Moves (SameBut n) (fun _ => True) (addSnapshotTask env m f) := by
  refine Moves.bind Moves.get fun s => ?_
  split
  next => exact Moves.crash trivial
  next =>
    split
    next => exact Moves.pure ()
    next => exact Moves.modify fun _ => ⟨rfl, fun _ _ _ => Iff.rfl⟩

theorem sameBut_noteFailedPod (env : Env) (pod : FuncPod) :
    Moves (SameBut n) (fun _ => True) (noteFailedPod env pod) := by
  refine Moves.bind Moves.get fun s => ?_
  split
  next =>
    split
    next =>
      refine Moves.bind (sameBut_addSnapshotTask env _ _) fun _ => ?_
      split
      next => exact Moves.modify fun _ => ⟨rfl, fun _ _ _ => Iff.rfl⟩
      next => exact Moves.crash trivial
    next => exact Moves.pure ()
  next => exact Moves.pure ()

theorem sameBut_requeueSnapshot (env : Env) {pod : FuncPod} (hn : pod.nodename = n) :
    Moves (SameBut n) (fun _ => True) (requeueSnapshot env pod) := by
  unfold requeueSnapshot
  rw [hn]
  split
  next =>
    refine Moves.bind Moves.get fun s => ?_
    split
    next => exact Moves.modify fun _ => sameBut_removePendingSnapshot _ _
    next =>
      refine Moves.bind (sameBut_addSnapshotTask env _ _) fun _ => ?_
      exact Moves.modify fun _ => sameBut_removePendingSnapshot _ _
  next => exact Moves.pure ()

theorem closePod_swept (env : Env) (s : SchedulerHandler) (pod : FuncPod) :
    (s.closePod env pod).swept =
      ({ s with terminatingPods := s.terminatingPods.erase pod.podKey } : SchedulerHandler).swept ∧
    (s.closePod env pod).pendingsnapshots = s.pendingsnapshots := by
  unfold closePod
  dsimp only
  split
  next =>
    unfold endSnapshotPodBilling
    split
    next => exact ⟨rfl, rfl⟩
    next =>
      split
      next => exact ⟨rfl, rfl⟩
      next => exact ⟨rfl, rfl⟩
  next => exact ⟨rfl, rfl⟩

end Same

/-- What is left of the record of a node without a pod. -/
theorem removePod_record {ns ns' : NodeStatus} {key : String} {r : NodeResources}
    (h : ns.removePod key r = .ok ns') : ns.Leaves ns' := by
  have hfields : ns'.node = ns.node ∧ ns'.pendingPods = ns.pendingPods.erase key ∧
      ns'.pods = ns.pods.erase key := by
    unfold NodeStatus.removePod at h
    dsimp only at h
    split at h
    next =>
      obtain ⟨a, -, ha⟩ := Except.bind_eq_ok.mp h
      rw [← Except.ok.inj ha]
      exact ⟨rfl, rfl, rfl⟩
    next =>
      rw [← Except.ok.inj h]
      exact ⟨rfl, rfl, rfl⟩
  obtain ⟨hnode, hpending, hpods⟩ := hfields
  refine ⟨hnode, fun k p hp => ?_, fun k w hw => ?_⟩
  · rw [hpending] at hp
    exact (BTreeMap.get_erase_eq_some.mp hp).2
  · rw [hpods] at hw
    exact (BTreeMap.get_erase_eq_some.mp hw).2

/-- Only the record of its node changes when a pod is taken off it. -/
theorem removePodFromNode_nodes (pod : FuncPod) (s : SchedulerHandler) :
    (removePodFromNode pod).wp (fun _ t =>
      ∃ nodes : BTreeMap String NodeStatus, t = { s with nodes } ∧
      (∀ m, m ≠ pod.nodename → nodes[m]? = s.nodes[m]?) ∧
      ∀ ns' : NodeStatus, nodes[pod.nodename]? = some ns' →
        ∃ ns, s.nodes[pod.nodename]? = some ns ∧ ns.Leaves ns')
      (fun _ _ => False) (fun _ => True) s := by
  unfold removePodFromNode
  rw [wp_bind, wp_get]
  split
  next hnone =>
    refine ⟨s.nodes, rfl, fun _ _ => rfl, fun ns' hns' => ?_⟩
    rw [hnone] at hns'
    cases hns'
  next ns hns =>
    rw [wp_bind]
    refine wp_liftFault.mpr ⟨fun ns' hns' => ?_, fun _ _ => trivial⟩
    rw [wp_modify]
    refine ⟨_, rfl, fun m hm => BTreeMap.get_insert_of_ne hm, fun ns₁ hns₁ => ?_⟩
    rw [BTreeMap.get_insert_self] at hns₁
    obtain rfl := Option.some.inj hns₁
    exact ⟨ns, hns, removePod_record hns'⟩

namespace Sweeping

variable {n : String} {B : String → String → Prop} {s u v : SchedulerHandler}

/-- The function of a pod of the node lets go of it. -/
theorem removePodOfFunc (h : Sweeping n B s u) (hc : EntriesCoherent s) {key : String}
    {w : WorkerPod}
    (hw : s.pods[key]? = some w) (hn : w.pod.nodename = n) :
    Sweeping n B s (u.modifyFunc w.pod.funcKey (·.removePod key)) := by
  refine h.modifyFunc (fun fs k v hv => (BTreeMap.get_erase_eq_some.mp hv).2)
    (fun k v hv hf fs hget => ?_)
    (fun fs k p hp => (BTreeMap.get_erase_eq_some.mp hp).2) (fun k p hp hf fs hget => ?_)
    (fun fs k hk => Finset.mem_of_mem_erase hk) fun k hk fs hmem => ?_
  · refine BTreeMap.get_erase_eq_some.mpr ⟨fun hk => hv ?_, hget⟩
    obtain ⟨m, hm, hget'⟩ := funcHolds_iff.mp hf
    have htracked := (hc.sound.func _ m k v hm hget').1
    rw [hk] at htracked
    rw [Option.some.inj (htracked.symm.trans hw)]
    exact hn
  · refine BTreeMap.get_erase_eq_some.mpr ⟨fun hk => ?_, hget⟩
    rcases hp with hp | ⟨-, hp⟩
    · exact hp ((hc.pending _ k p w hf (hk ▸ hw)).trans hn)
    · exact hp ⟨w, hk ▸ hw, hn, rfl⟩
  · exact Finset.mem_erase.mpr ⟨fun heq => hk w (heq ▸ hw) hn, hmem⟩

/-- The last step of a deletion: the function lets go of a pod that is forgotten already. -/
theorem finish {pods : BTreeMap String WorkerPod} (h : Sweeping n B s { u with pods })
    (hc : EntriesCoherent s) {key : String} {w : WorkerPod} (hw : s.pods[key]? = some w)
    (hn : w.pod.nodename = n) (hpods : u.pods = pods.erase key) (hidle : key ∉ u.idlePods)
    (hterm : u.terminatingPods[key]? = none) :
    Sweeping n B s (u.modifyFunc w.pod.funcKey (·.removePod key)) := by
  have hgone := (h.removePodOfFunc hc hw hn).erasePod hidle hterm fun w' hw' => by
    rw [Option.some.inj (hw'.symm.trans hw)]
    refine ⟨fun hstop => ?_, Option.eq_none_iff_forall_ne_some.mpr fun p hp => ?_⟩
    · rw [stopMarked_modifyFunc, if_pos rfl] at hstop
      obtain ⟨fs, -, hmem⟩ := hstop
      exact absurd hmem (Finset.notMem_erase key fs.stoppingPods)
    · rw [reservation_modifyFunc, if_pos rfl] at hp
      obtain ⟨fs, -, hget⟩ := hp
      exact (BTreeMap.get_erase_eq_some.mp hget).1 rfl
  have hsame : { ({ u with pods } : SchedulerHandler).modifyFunc w.pod.funcKey
    (·.removePod key) with
      pods := pods.erase key } = u.modifyFunc w.pod.funcKey (·.removePod key) := by
    rw [← hpods]
    rfl
  rw [← hsame]
  exact hgone

/-- **The deletion of a pod of the node.** -/
theorem removePod (h : Sweeping n B s u) (hc : EntriesCoherent s) (env : Env) {w : WorkerPod}
    (hw : s.pods[w.pod.podKey]? = some w) (hn : w.pod.nodename = n) :
    (removePod env w.pod).wp (fun _ v => Sweeping n B s v) (fun _ _ => False)
    (fun _ => True) u := by
  unfold Inferx.removePod
  rw [wp_bind, wp_modify, wp_bind]
  unfold untrack
  rw [wp_bind, wp_get]
  split
  next => trivial
  next =>
    rw [wp_modify, wp_bind]
    let u₁ : SchedulerHandler :=
      { u.closePod env w.pod with pods := (u.closePod env w.pod).pods.erase w.pod.podKey }
    refine wp_mono ((noteFailedPod_infallible env w.pod).wp_of_moves
      (sameBut_noteFailedPod (n := n) env w.pod) u₁)
      (fun _ u₂ h₂ => ?_) (fun _ _ h => h) fun _ h => h
    rw [wp_bind]
    refine wp_mono ((requeueSnapshot_infallible env w.pod).wp_of_moves
      (sameBut_requeueSnapshot env hn) u₂)
      (fun _ u₃ h₃ => ?_) (fun _ _ h => h) fun _ h => h
    have h₁₃ : SameBut n u₁ u₃ := IsTrans.trans _ _ _ h₂ h₃
    -- the same deletion with the pod forgotten last
    let v : SchedulerHandler := { u₃.popIdle w.pod.podKey with pods := u.pods }
    have hv : Sweeping n B s v := by
      refine SameBut.sweeping (h.leavePools hw hn) ⟨?_,
        fun f m hm => (h₁₃.pendingSnapshot f m hm).trans ?_⟩
      · have hswept := h₁₃.swept.trans (show u₁.swept = _ from rfl)
        have hclose := (closePod_swept env u w.pod).1
        simp only [SchedulerHandler.swept, Prod.mk.injEq, u₁] at hswept hclose
        obtain ⟨-, hidle, hterm, hnodePods, hfuncPods, hfuncs, hnodes, hsched⟩ := hswept
        obtain ⟨-, hidle', hterm', hnodePods', hfuncPods', hfuncs', hnodes', hsched'⟩ := hclose
        simp only [SchedulerHandler.swept, v, popIdle, Prod.mk.injEq]
        refine ⟨trivial, ?_, hterm.trans hterm', hnodePods.trans hnodePods',
          hfuncPods.trans hfuncPods',
          hfuncs.trans hfuncs', hnodes.trans hnodes', hsched.trans hsched'⟩
        rw [hidle, hidle']
      · unfold PendingSnapshot
        rw [show u₁.pendingsnapshots = (u.closePod env w.pod).pendingsnapshots from rfl,
          (closePod_swept env u w.pod).2]
    have hu₃ : u₃.pods = u.pods.erase w.pod.podKey := by
      have hswept := congrArg Prod.fst h₁₃.swept
      have hclose := congrArg Prod.fst (closePod_swept env u w.pod).1
      exact hswept.trans (congrArg
        (fun m : BTreeMap String WorkerPod => m.erase w.pod.podKey) hclose)
    have hidle : w.pod.podKey ∉ v.idlePods := fun hmem => (LruCache.mem_pop.mp hmem).1 rfl
    have hterm : v.terminatingPods[w.pod.podKey]? = none := by
      have hswept := congrArg (fun x => x.2.2.1) h₁₃.swept
      have hclose := congrArg (fun x => x.2.2.1) (closePod_swept env u w.pod).1
      have hall : v.terminatingPods = u.terminatingPods.erase w.pod.podKey := hswept.trans hclose
      rw [hall, BTreeMap.get_erase, if_pos rfl]
    rw [wp_bind, wp_modify, wp_bind]
    refine wp_mono (removePodFromNode_nodes w.pod _) (fun _ x hx => ?_)
      (fun _ _ h => h) fun _ h => h
    obtain ⟨nodes, rfl, hother, hrecord⟩ := hx
    rw [hn] at hother hrecord
    rw [wp_modify]
    exact (hv.setNodes hother hrecord).finish
      (u := { u₃.popIdle w.pod.podKey with nodes }) hc hw hn hu₃ hidle hterm

/-- The loop over pods of the node. -/
theorem removePods (h : Sweeping n B s u) (hc : EntriesCoherent s) (env : Env)
    {m : BTreeMap String WorkerPod} (hm : ∀ (k : String) (w : WorkerPod), m[k]? = some w →
      s.pods[k]? = some w ∧ w.pod.nodename = n) :
    (removePods env m).wp (fun _ v => Sweeping n B s v) (fun _ _ => False) (fun _ => True) u := by
  let I : List (String × WorkerPod) → SchedulerHandler → Prop := fun l v =>
    Sweeping n B s v ∧ ∀ p ∈ l, s.pods[p.1]? = some p.2 ∧ p.2.pod.nodename = n
  unfold Inferx.removePods
  refine wp_mono (wp_each (I := I) (fun p l v hv => ?_) m.toList u
    ⟨h, fun p hp => hm p.1 p.2 (BTreeMap.mem_toList.mp hp)⟩) (fun _ v hv => hv.1)
    (fun _ _ h => h) fun _ h => h
  obtain ⟨hv, hl⟩ := hv
  obtain ⟨hw, hn⟩ := hl p List.mem_cons_self
  have hkey : p.2.pod.podKey = p.1 := hc.sound.key p.1 p.2 hw
  rw [wp_ignore]
  refine wp_mono (hv.removePod hc env (hkey.symm ▸ hw) hn) (fun _ v' hv' => ?_)
    (fun _ _ h => h.elim)
    fun _ h => h
  exact ⟨hv', fun q hq => hl q (List.mem_cons_of_mem _ hq)⟩

/-- A reservation that the node holds is dropped. -/
theorem dropFuncPending (h : Sweeping n B s u) (hc : EntriesCoherent s) {ns : NodeStatus}
    (hns : s.nodes[n]? = some ns) {key : String} {p : PendingPod}
    (hp : ns.pendingPods[key]? = some p) : Sweeping n B s (u.dropFuncPending p.funcId key) := by
  obtain ⟨hnode, honly⟩ := hc.held n key ns p hns hp
  refine h.modifyFunc (fun _ _ _ h => h) (fun _ _ _ _ _ h => h)
    (fun fs k q hq => (BTreeMap.get_erase_eq_some.mp hq).2) (fun k q hq hf fs hget => ?_)
    (fun _ _ h => h)
    fun _ _ _ h => h
  refine BTreeMap.get_erase_eq_some.mpr ⟨fun hk => ?_, hget⟩
  rcases hq with hq | ⟨hq, -⟩
  · rw [honly q (hk ▸ hf)] at hq
    exact hq hnode
  · exact hq ⟨ns, p, hns, hk ▸ hp, rfl⟩

/-- A stop mark on a pod of the node is dropped. -/
theorem removeStoppingPod (h : Sweeping n B s u) {key : String} {w : WorkerPod}
    (hw : s.pods[key]? = some w) (hn : w.pod.nodename = n) :
    Sweeping n B s (u.modifyFunc w.pod.funcKey (·.removeStoppingPod key)) :=
  h.modifyFunc (fun _ _ _ h => h) (fun _ _ _ _ _ h => h) (fun _ _ _ h => h) (fun _ _ _ _ _ h => h)
    (fun _ _ hk => Finset.mem_of_mem_erase hk) fun _ hk _ hmem =>
      Finset.mem_erase.mpr ⟨fun heq => hk w (heq ▸ hw) hn, hmem⟩

end Sweeping

/-- What every step along a list keeps. -/
theorem foldl_keeps {α σ : Type} {g : σ → α → σ} {P : σ → Prop} {l : List α}
    (h : ∀ a ∈ l, ∀ s, P s → P (g s a)) {s : σ} (hs : P s) : P (l.foldl g s) := by
  induction l generalizing s with
  | nil => exact hs
  | cons a l ih =>
    refine ih (fun b hb => h b (List.mem_cons_of_mem _ hb)) (h a List.mem_cons_self s hs)

theorem reservation_dropFuncPending {s : SchedulerHandler} {f g k key : String} :
    (s.dropFuncPending g key).reservation f k = none ↔ s.reservation f k = none ∨
    f = g ∧ k = key := by
  rw [← Option.not_isSome_iff_eq_none, ← Option.not_isSome_iff_eq_none, Option.isSome_iff_exists,
    Option.isSome_iff_exists]
  unfold SchedulerHandler.dropFuncPending
  simp only [reservation_modifyFunc]
  split
  next heq =>
    subst heq
    simp only [BTreeMap.get_erase_eq_some, reservation_eq]
    grind
  next hne => simp [hne]

/-- What has been dropped stays dropped. -/
theorem reservation_foldl {l : List (String × PendingPod)} {s : SchedulerHandler}
    {q : String × PendingPod}
    (hq : q ∈ l) :
    (l.foldl (fun s p => s.dropFuncPending p.2.funcId p.1) s).reservation q.2.funcId q.1
    = none := by
  obtain ⟨l₁, l₂, rfl⟩ := List.append_of_mem hq
  rw [List.foldl_append, List.foldl_cons]
  refine foldl_keeps (P := fun s : SchedulerHandler => s.reservation q.2.funcId q.1 = none)
    (fun p _ s hs => ?_) ?_
  · exact reservation_dropFuncPending.mpr (.inl hs)
  · exact reservation_dropFuncPending.mpr (.inr ⟨rfl, rfl⟩)

namespace Sweeping

variable {n : String} {B : String → String → Prop} {s u v : SchedulerHandler}

/-- The functions let go of what the node has reserved and of what is being stopped on it. -/
theorem cleanFuncStatusForNode (h : Sweeping n B s u) (hc : EntriesCoherent s) :
    Sweeping n B s (u.cleanFuncStatusForNode n) := by
  unfold SchedulerHandler.cleanFuncStatusForNode
  split
  next => exact h
  next ns' hns' =>
    obtain ⟨ns, hns, hleaves⟩ := h.record ns' hns'
    have hdropped := foldl_keeps (P := Sweeping n B s)
      (g := fun (s : SchedulerHandler)
        (p : String × PendingPod) => s.dropFuncPending p.2.funcId p.1)
      (l := ns'.pendingPods.toList)
      (fun p hp t ht => ht.dropFuncPending hc hns
        (hleaves.pendingPods _ _ (BTreeMap.mem_toList.mp hp))) h
    refine foldl_keeps (P := Sweeping n B s) (fun p hp t ht => ?_) hdropped
    split
    next =>
      obtain ⟨hw, hnode⟩ := hc.sound.node n ns.pods p.1 p.2 (known_node hns)
        (hleaves.pods _ _ (BTreeMap.mem_toList.mp hp))
      exact ht.removeStoppingPod hw hnode
    next => exact ht

/-- What the node reserves is not reserved any more. -/
theorem reservation_cleaned (hnodes : u.nodes = s.nodes) :
    ∀ f k p, (u.cleanFuncStatusForNode n).reservation f k = some p → ¬ s.HeldBy n f k := by
  rintro f k p hp ⟨ns, q, hns, hpending, hf⟩
  unfold SchedulerHandler.cleanFuncStatusForNode at hp
  rw [hnodes, hns] at hp
  dsimp only at hp
  have hnone : ∀ (l : List (String × WorkerPod)) (t : SchedulerHandler), t.reservation f k = none →
      (l.foldl (fun (s : SchedulerHandler) p => if p.1 ∈ ns.stoppingPods then
        s.modifyFunc p.2.pod.funcKey (·.removeStoppingPod p.1)
        else s) t).reservation f k = none := by
    intro l t ht
    refine foldl_keeps (P := fun t : SchedulerHandler => t.reservation f k = none)
      (fun q _ t ht => ?_) ht
    split
    next =>
      rw [Option.eq_none_iff_forall_ne_some] at ht ⊢
      intro p' hp'
      rw [reservation_modifyFunc] at hp'
      split at hp'
      next => exact ht p' (reservation_eq.mpr hp')
      next => exact ht p' hp'
    next => exact ht
  have hdropped := reservation_foldl (s := u) (BTreeMap.mem_toList.mpr hpending)
  rw [hf] at hdropped
  rw [hnone _ _ hdropped] at hp
  cases hp

end Sweeping

/-! ## Cleaning out -/

section Forget

variable {n : String}

theorem sameBut_removePendingSnapshotsOn (s : SchedulerHandler) :
    SameBut n s (s.removePendingSnapshotsOn n) :=
  foldl_keeps (P := SameBut n s)
    (fun _ _ t ht => IsTrans.trans _ _ _ ht (sameBut_removePendingSnapshot t _)) (Std.Refl.refl s)

theorem pendingSnapshot_removePendingSnapshotsOn {s : SchedulerHandler} {f : String} :
    ¬ (s.removePendingSnapshotsOn n).PendingSnapshot f n := by
  unfold removePendingSnapshotsOn
  have hkeep : ∀ (l : List String) (t : SchedulerHandler), ¬ t.PendingSnapshot f n →
      ¬ (l.foldl (fun s g => s.removePendingSnapshot g n) t).PendingSnapshot f n := fun l t ht =>
    foldl_keeps (P := fun t : SchedulerHandler => ¬ t.PendingSnapshot f n)
      (fun _ _ t ht h => ht (pendingSnapshot_removePendingSnapshot.mp h).1) ht
  by_cases hf : f ∈ s.pendingsnapshots.keys
  · obtain ⟨l₁, l₂, hl⟩ := List.append_of_mem hf
    rw [hl, List.foldl_append, List.foldl_cons]
    exact hkeep l₂ _ fun h => (pendingSnapshot_removePendingSnapshot.mp h).2 ⟨rfl, rfl⟩
  · refine hkeep _ s fun h => ?_
    obtain ⟨nodes, hnodes, -⟩ := h
    rw [Std.ExtTreeMap.mem_keys, Std.ExtTreeMap.mem_iff_isSome_getElem?, hnodes] at hf
    exact hf rfl

/-- Forgetting the pairs of a second id twice does nothing more. -/
theorem BiIndex.removeById2_idem {Info : Type} (b : BiIndex Info) (id : String) :
    (b.removeById2 id).removeById2 id = b.removeById2 id := by
  unfold BiIndex.removeById2
  rcases hid : b.byId2[id]? with _ | map1
  · dsimp only
    rw [hid]
  · dsimp only
    rw [BTreeMap.get_erase, if_pos rfl]

theorem BiIndex.get12_removeById2 {Info : Type} {b : BiIndex Info}
    (hb : ∀ f n, b.get12 f n = b.get21 n f) (f m id : String) :
    (b.removeById2 id).get12 f m = if m = id then none else b.get12 f m := by
  unfold BiIndex.removeById2
  rcases hid : b.byId2[id]? with _ | map1
  · dsimp only
    split
    next hm =>
      rw [hm, hb]
      unfold BiIndex.get21 BTreeMap.getInner
      rw [hid, Option.bind_none]
    next => rfl
  · show (List.foldl _ b.byId1 map1.keys).getInner f m = _
    rw [BTreeMap.getInner_removeInner_keys]
    by_cases hm : m = id
    · rw [if_pos hm]
      by_cases hf : f ∈ map1.keys
      · rw [if_pos ⟨hf, hm⟩]
      · rw [if_neg fun h => hf h.1, hm]
        show b.get12 f id = none
        rw [hb]
        unfold BiIndex.get21 BTreeMap.getInner
        rw [hid, Option.bind_some]
        rw [Std.ExtTreeMap.mem_keys] at hf
        exact Std.ExtTreeMap.getElem?_eq_none hf
    · rw [if_neg hm, if_neg fun h => hm h.2]
      rfl

theorem BiIndex.get21_removeById2 {Info : Type} (b : BiIndex Info) (f m id : String) :
    (b.removeById2 id).get21 m f = if m = id then none else b.get21 m f := by
  unfold BiIndex.removeById2
  rcases hid : b.byId2[id]? with _ | map1
  · dsimp only
    split
    next hm =>
      rw [hm]
      unfold BiIndex.get21 BTreeMap.getInner
      rw [hid, Option.bind_none]
    next => rfl
  · exact BTreeMap.getInner_erase ..

end Forget

namespace Sweeping

variable {n : String} {B : String → String → Prop} {s u v : SchedulerHandler}

/-- What holds of all that is reserved is kept from now on. -/
theorem bound {B' : String → String → Prop} (h : Sweeping n B s u)
    (hbound : ∀ f k p, u.reservation f k = some p → B' f k) : Sweeping n B' s u :=
  { h with reserved_sub := fun f k p hp => ⟨(h.reserved_sub f k p hp).1, hbound f k p hp⟩ }

/-- Nothing is parked for the node any more. -/
theorem unpark (h : Sweeping n B s u) : Sweeping n B s { u with nodePods := u.nodePods.erase n } :=
  { h with nodePods := fun m hm => (BTreeMap.get_erase_of_ne hm).trans (h.nodePods m hm) }

/-- So is its part of the schedule. -/
theorem forgetSnapshotsOn_sched (h : Sweeping n B s u) :
    (u.forgetSnapshotsOn n).snapshotSched = s.snapshotSched.removeById2 n := by
  let u₁ : SchedulerHandler := { u with
    snapshots := u.snapshots.keys.foldl (fun m funcId => m.removeInner funcId n) u.snapshots }
  have hsame : (u₁.removePendingSnapshotsOn n).snapshotSched = u.snapshotSched :=
    congrArg (fun x => x.2.2.2.2.2.2.2) (sameBut_removePendingSnapshotsOn (n := n) u₁).swept
  show (u₁.removePendingSnapshotsOn n).snapshotSched.removeById2 n = _
  rw [hsame]
  rcases h.sched with hsched | hsched
  · rw [hsched]
  · rw [hsched, BiIndex.removeById2_idem]

/-- The snapshots on the node are forgotten. -/
theorem forgetSnapshotsOn (h : Sweeping n B s u) : Sweeping n B s (u.forgetSnapshotsOn n) := by
  let u₁ : SchedulerHandler := { u with
    snapshots := u.snapshots.keys.foldl (fun m funcId => m.removeInner funcId n) u.snapshots }
  have h₁ : Sweeping n B s u₁ := SameBut.sweeping h ⟨rfl, fun _ _ _ => Iff.rfl⟩
  have h₂ : Sweeping n B s (u₁.removePendingSnapshotsOn n) :=
    SameBut.sweeping h₁ (sameBut_removePendingSnapshotsOn u₁)
  exact { h₂ with sched := .inr h.forgetSnapshotsOn_sched }

/-- The node leaves. -/
theorem eraseNode (h : Sweeping n B s u) : Sweeping n B s { u with nodes := u.nodes.erase n } :=
  h.setNodes (fun _ hm => BTreeMap.get_erase_of_ne hm) fun ns' hns' => by
    rw [BTreeMap.get_erase, if_pos rfl] at hns'
    cases hns'

end Sweeping

/-- The node has been swept out. -/
structure SweptOut (n : String) (s t : SchedulerHandler) : Prop where
  /-- only entries of the node have gone, and its own reservations have -/
  sweeping : Sweeping n (fun f k => ¬ s.HeldBy n f k) s t
  /-- no snapshot is being made on it -/
  pendingSnapshot : ∀ f, ¬ t.PendingSnapshot f n
  /-- the schedule does not mention it -/
  sched : t.snapshotSched = s.snapshotSched.removeById2 n

theorem cleanFuncStatusForNode_sched (s : SchedulerHandler) (n : String) :
    (s.cleanFuncStatusForNode n).snapshotSched = s.snapshotSched := by
  unfold cleanFuncStatusForNode
  split
  next => rfl
  next =>
    refine foldl_keeps (P := fun t : SchedulerHandler => t.snapshotSched = s.snapshotSched)
      (fun p _ t ht => ?_) ?_
    · split
      next => exact ht
      next => exact ht
    · exact foldl_keeps (P := fun t : SchedulerHandler => t.snapshotSched = s.snapshotSched)
        (g := fun (s : SchedulerHandler)
          (p : String × PendingPod) => s.dropFuncPending p.2.funcId p.1)
        (fun _ _ _ ht => ht) rfl

/-- The known node leaves. -/
theorem removeNode_swept {n : String} {s u : SchedulerHandler} (h : SweptOut n s u)
    (hc : EntriesCoherent s) {node : Node} (hname : node.name = n) :
    (removeNode node).wp (fun _ t => SweptOut n s t) (fun _ t => t = u) (fun _ => True) u := by
  unfold removeNode
  rw [wp_bind, wp_get, hname]
  split
  next =>
    rw [wp_bind, wp_modify, wp_bind, wp_modify, wp_modify]
    have hclean := h.sweeping.cleanFuncStatusForNode hc
    refine ⟨(SameBut.sweeping hclean (sameBut_removePendingSnapshotsOn _)).eraseNode, fun f =>
      pendingSnapshot_removePendingSnapshotsOn, ?_⟩
    have hswept := congrArg (fun x => x.2.2.2.2.2.2.2)
      (sameBut_removePendingSnapshotsOn (n := n) (u.cleanFuncStatusForNode n)).swept
    exact hswept.trans ((cleanFuncStatusForNode_sched u n).trans h.sched)
  next => rfl

theorem cleanNode_swept (env : Env) (n : String) {s : SchedulerHandler} (hc : EntriesCoherent s) :
    (cleanNode env n).wp (fun _ t => SweptOut n s t) (fun _ _ => False) (fun _ => True) s := by
  unfold cleanNode
  rw [wp_bind, wp_get, wp_bind, wp_modify, wp_bind]
  have hparked : ∀ (k : String) (w : WorkerPod), (s.nodePods[n]?.getD ∅)[k]? = some w →
      s.pods[k]? = some w ∧ w.pod.nodename = n := fun k w hw => by
    rw [BTreeMap.get_getD] at hw
    exact hc.coherent.node_sound n k w (entry_of_or hc.sound.node_tidy (.inr hw))
  have hunpark : Sweeping n (fun _ _ => True) s { s with nodePods := s.nodePods.erase n } :=
    (Sweeping.refl n s).unpark
  -- the node is not known, or nothing is parked for it
  have hfirst : (removePods env (s.nodePods[n]?.getD ∅)).wp
      (fun _ u => Sweeping n (fun _ _ => True) s u ∧ (u.nodes = s.nodes ∨ s.nodes[n]? = none))
      (fun _ _ => False) (fun _ => True) { s with nodePods := s.nodePods.erase n } := by
    rcases hns : s.nodes[n]? with _ | ns
    · exact wp_mono (hunpark.removePods hc env hparked) (fun _ _ h => ⟨h, .inr rfl⟩)
        (fun _ _ h => h)
        fun _ h => h
    · have hempty : (s.nodePods[n]?.getD ∅).toList = [] := by
        refine List.eq_nil_iff_forall_not_mem.mpr fun p hp => ?_
        have hget := BTreeMap.mem_toList.mp hp
        rw [BTreeMap.get_getD] at hget
        have hknown : (s.index.byNode.known n).isSome = true :=
          congrArg Option.isSome (known_node hns)
        have hnone := hc.sound.node_tidy n p.1 hknown
        exact absurd (hnone.symm.trans hget) nofun
      unfold removePods
      rw [hempty]
      exact ⟨hunpark, .inl rfl⟩
  refine wp_mono hfirst (fun _ u hu => ?_) (fun _ _ h => h) fun _ h => h
  obtain ⟨hu, hnodes⟩ := hu
  rw [wp_bind, wp_modify, wp_bind, wp_get, wp_bind]
  have hclean : Sweeping n (fun f k => ¬ s.HeldBy n f k) s (u.cleanFuncStatusForNode n) := by
    refine (hu.cleanFuncStatusForNode hc).bound fun f k p hp => ?_
    rcases hnodes with hnodes | hnone
    · exact Sweeping.reservation_cleaned hnodes f k p hp
    · rintro ⟨ns, q, hns, -⟩
      rw [hnone] at hns
      cases hns
  refine wp_mono (hclean.removePods hc env fun k w hw => ?_) (fun _ v hv => ?_)
    (fun _ _ h => h) fun _ h => h
  · unfold podsOfNode at hw
    split at hw
    next => simp at hw
    next ns' hns' =>
      obtain ⟨ns, hns, hleaves⟩ := hclean.record ns' hns'
      exact hc.sound.node n ns.pods k w (known_node hns) (hleaves.pods k w hw)
  · rw [wp_bind, wp_modify, wp_bind, wp_get]
    have hforget : SweptOut n s (v.forgetSnapshotsOn n) :=
      ⟨hv.forgetSnapshotsOn, fun f => pendingSnapshot_removePendingSnapshotsOn,
        hv.forgetSnapshotsOn_sched⟩
    split
    next => exact hforget
    next ns hns =>
      obtain ⟨ns₀, hns₀, hleaves⟩ := hforget.sweeping.record ns hns
      have hname : ns.node.name = n := by
        rw [hleaves.node]
        exact hc.sound.named n _ (congrArg (Option.map fun ns : NodeStatus => ns.node.name) hns₀)
      rw [wp_ignore]
      refine wp_mono (removeNode_swept hforget hc hname) (fun _ _ h => h)
        (fun _ t ht => ?_) fun _ h => h
      rw [ht]
      exact hforget

theorem checkNodeEpoch_swept (env : Env) {n : String} {epoch : ℤ} {s : SchedulerHandler}
    (hc : EntriesCoherent s) (hnew : NewEpoch s n epoch) :
    (checkNodeEpoch env n epoch).wp (fun _ t => SweptOut n s t) (fun _ _ => False)
    (fun _ => True) s := by
  obtain ⟨old, hold, hne⟩ := hnew
  unfold checkNodeEpoch
  rw [wp_bind, wp_get, hold]
  dsimp only
  rw [if_neg hne, wp_bind]
  refine wp_mono (cleanNode_swept env n hc) (fun _ t ht => ?_) (fun _ _ h => h) fun _ h => h
  rw [wp_modify]
  exact ⟨SameBut.sweeping ht.sweeping ⟨rfl, fun _ _ _ => Iff.rfl⟩, ht.pendingSnapshot, ht.sched⟩

/-! ## What is left -/

/-- All entries of other nodes are as they were. -/
structure OthersKept (n : String) (s t : SchedulerHandler) : Prop where
  pods : ∀ (k : String) (w : WorkerPod), w.pod.nodename ≠ n →
    (t.pods[k]? = some w ↔ s.pods[k]? = some w)
  idlePods : ∀ k, s.Elsewhere n k → (k ∈ t.idlePods ↔ k ∈ s.idlePods)
  terminatingPods : ∀ k : String, s.Elsewhere n k → t.terminatingPods[k]? = s.terminatingPods[k]?
  nodePods : ∀ m, m ≠ n → t.nodePods[m]? = s.nodePods[m]?
  funcPods : ∀ f k w, w.pod.nodename ≠ n →
    (t.funcPods.getInner f k = some w ↔ s.funcPods.getInner f k = some w)
  funcHolds : ∀ f k w, w.pod.nodename ≠ n → (FuncHolds t f k w ↔ FuncHolds s f k w)
  reservation : ∀ f k p, p.nodeName ≠ n → (t.reservation f k = some p ↔ s.reservation f k = some p)
  stopMarked : ∀ f k, s.Elsewhere n k → (t.StopMarked f k ↔ s.StopMarked f k)
  snapshots : ∀ f m, m ≠ n → t.snapshots.getInner f m = s.snapshots.getInner f m
  pendingSnapshot : ∀ f m, m ≠ n → (t.PendingSnapshot f m ↔ s.PendingSnapshot f m)
  sched : ∀ f m, m ≠ n → t.snapshotSched.get12 f m = s.snapshotSched.get12 f m ∧
    t.snapshotSched.get21 m f = s.snapshotSched.get21 m f
  removals : ∀ key, ¬ RemovalOn n key →
    (key ∈ t.pendingSnapshotRemovals ↔ key ∈ s.pendingSnapshotRemovals)
  nodes : ∀ m, m ≠ n → t.nodes[m]? = s.nodes[m]?

/-- **The promise about a step.** Nothing of the node is left in any map, and all entries of
other nodes are as they were. -/
structure EpochSwept (n : String) (s t : SchedulerHandler) : Prop where
  pods : ∀ (k : String) (w : WorkerPod), t.pods[k]? = some w → w.pod.nodename ≠ n
  idlePods : ∀ (k : String) (w : WorkerPod), s.pods[k]? = some w → w.pod.nodename = n →
    k ∉ t.idlePods
  terminatingPods : ∀ (k : String) (w : WorkerPod), s.pods[k]? = some w → w.pod.nodename = n →
    t.terminatingPods[k]? = none
  nodePods : ∀ m k w, t.nodePods.getInner m k = some w → w.pod.nodename ≠ n
  funcPods : ∀ f k w, t.funcPods.getInner f k = some w → w.pod.nodename ≠ n
  funcHolds : ∀ f k w, FuncHolds t f k w → w.pod.nodename ≠ n
  reservation : ∀ f k p, t.reservation f k = some p → p.nodeName ≠ n
  stopMarked : ∀ (f k : String) (w : WorkerPod), s.pods[k]? = some w → w.pod.nodename = n →
    ¬ t.StopMarked f k
  snapshots : ∀ f, t.snapshots.getInner f n = none
  pendingSnapshot : ∀ f, ¬ t.PendingSnapshot f n
  sched : ∀ f, t.snapshotSched.get12 f n = none ∧ t.snapshotSched.get21 n f = none
  node : t.nodes[n]? = none
  others : OthersKept n s t

section Assemble

variable {n : String} {s t : SchedulerHandler}

/-- The pods of the node have gone. -/
theorem Emptied.get (h : Emptied n s t) (hc : EntriesCoherent s) {k : String} {w : WorkerPod}
    (hw : s.pods[k]? = some w) (hn : w.pod.nodename = n) : t.pods[k]? = none := by
  have hentry := hc.coherent.node k w hw
  rw [show w.node = n from hn] at hentry
  exact h.gone k w hentry

theorem SweptOut.othersKept (h : SweptOut n s t) (hc : EntriesCoherent s) (hempty : Emptied n s t)
    (hforgets : Forgets n s t) : OthersKept n s t where
  pods k w hw := ⟨hempty.sub k w, fun hs => hempty.other k w hs hw⟩
  idlePods := h.sweeping.idle
  terminatingPods := h.sweeping.terminating
  nodePods := h.sweeping.nodePods
  funcPods f k w _ := by rw [h.sweeping.funcPods]
  funcHolds := h.sweeping.holds
  reservation f k p hp := h.sweeping.reserved f k p (.inl hp)
  stopMarked := h.sweeping.stopping
  snapshots f m hm := (hforgets.snapshots f m).trans (if_neg hm)
  pendingSnapshot := h.sweeping.pendingSnapshot
  sched f m hm := by
    rw [h.sched, BiIndex.get12_removeById2 hc.sched, BiIndex.get21_removeById2,
      if_neg hm, if_neg hm]
    exact ⟨rfl, rfl⟩
  removals key hkey := by
    show key ∈ t.books.removals ↔ key ∈ s.books.removals
    rw [hforgets.removals, Finset.mem_filter]
    exact and_iff_left hkey
  nodes := h.sweeping.nodes

/-- Everything but the pods that are parked for functions and what functions alone reserve. -/
theorem SweptOut.epochSwept (h : SweptOut n s t) (hc : EntriesCoherent s) (hempty : Emptied n s t)
    (hforgets : Forgets n s t) (hnone : NoneFuncParked s n) (hnone' : s.NoneReservedAlone n) :
    EpochSwept n s t := by
  have hpods : ∀ (k : String) (w : WorkerPod), t.pods[k]? = some w → w.pod.nodename ≠ n :=
    fun k w hw hn => by
    rw [hempty.get hc (hempty.sub k w hw) hn] at hw
    cases hw
  refine ⟨hpods, fun k w hw hn => ?_, fun k w hw hn => ?_, fun m k w hw => ?_, fun f k w hw => ?_,
    fun f k w hw => ?_, fun f k p hp hn => ?_, fun f k w hw hn hf => ?_,
    fun f => (hforgets.snapshots f n).trans (if_pos rfl), h.pendingSnapshot, fun f => ?_, ?_,
    h.othersKept hc hempty hforgets⟩
  · exact (h.sweeping.gone k w hw (hempty.get hc hw hn)).1
  · exact (h.sweeping.gone k w hw (hempty.get hc hw hn)).2.1
  · by_cases hm : m = n
    · have hunparked := hempty.unparked k
      rw [hm] at hw
      exact absurd (hunparked.symm.trans hw) nofun
    · have hs : s.index.byNode.parked.getInner m k = some w := by
        show s.nodePods.getInner m k = some w
        unfold BTreeMap.getInner at hw ⊢
        rw [← h.sweeping.nodePods m hm]
        exact hw
      obtain ⟨-, hnode⟩ := hc.coherent.node_sound m k w (entry_of_or hc.sound.node_tidy (.inr hs))
      exact fun hn => hm (hnode.symm.trans hn)
  · rw [h.sweeping.funcPods] at hw
    exact hnone f k w hw
  · obtain ⟨m, hm, hget⟩ := funcHolds_iff.mp hw
    exact hpods k w (hempty.sound.func f m k w hm hget).1
  · obtain ⟨hs, hheld⟩ := h.sweeping.reserved_sub f k p hp
    obtain ⟨w, hw, hnode, rfl⟩ := (hnone' f k p hs hn).resolve_left hheld
    have hgone := (h.sweeping.gone k w hw (hempty.get hc hw hnode)).2.2.2
    exact absurd (hgone.symm.trans hp) nofun
  · have hfunc := hc.stopping f k w (h.sweeping.stopping_sub f k hf) hw
    rw [← hfunc] at hf
    exact (h.sweeping.gone k w hw (hempty.get hc hw hn)).2.2.1 hf
  · rw [h.sched, BiIndex.get12_removeById2 hc.sched, BiIndex.get21_removeById2,
      if_pos rfl, if_pos rfl]
    exact ⟨rfl, rfl⟩
  · have hunknown := hempty.unknown
    exact Option.map_eq_none_iff.mp hunknown

end Assemble

/-- **A new epoch sweeps the old one out**, except for pods that are parked for functions and
reservations that only the function knows of. -/
theorem epochSwept_iff {env : Env} {n : String} {epoch : ℤ} {s t : SchedulerHandler}
    (hc : EntriesCoherent s) (hnew : NewEpoch s n epoch)
    (ht : (checkNodeEpoch env n epoch s).state? = some t) :
    EpochSwept n s t ↔ NoneFuncParked s n ∧ s.NoneReservedAlone n := by
  have hpark : s.index.NodeArrivable n := fun k w hw =>
    hc.coherent.node_sound n k w (entry_of_or hc.sound.node_tidy (.inr hw))
  have hempty : ¬ NewEpoch s n epoch ∧ t.life = s.life ∨ NewEpoch s n epoch ∧ Emptied n s t :=
    wp_state (I := fun t => ¬ NewEpoch s n epoch ∧ t.life = s.life ∨ NewEpoch s n epoch ∧
      Emptied n s t)
      (wp_mono (checkNodeEpoch_spec env n epoch hc.sound fun _ => hpark) (fun _ _ h => h)
        (fun _ _ h => h.elim) fun _ h => h) ht
  have hforgets : ¬ NewEpoch s n epoch ∧ t.books = s.books ∨ NewEpoch s n epoch ∧ Forgets n s t :=
    wp_state (I := fun t => ¬ NewEpoch s n epoch ∧ t.books = s.books ∨ NewEpoch s n epoch ∧
      Forgets n s t)
      (wp_mono (checkNodeEpoch_books env n epoch s) (fun _ _ h => h) (fun _ _ h => h.elim)
        fun _ h => h) ht
  have hswept : SweptOut n s t := wp_state (I := fun t => SweptOut n s t)
    (wp_mono (checkNodeEpoch_swept env hc hnew) (fun _ _ h => h) (fun _ _ h => h.elim)
      fun _ h => h) ht
  replace hempty := (hempty.resolve_left fun h => h.1 hnew).2
  replace hforgets := (hforgets.resolve_left fun h => h.1 hnew).2
  constructor
  · refine fun h => ⟨fun f k w hw => ?_, fun f k p hp hn => Classical.byContradiction fun halone => ?_⟩
    · refine h.funcPods f k w ?_
      rw [hswept.sweeping.funcPods]
      exact hw
    · have hkept := (hswept.sweeping.reserved f k p (.inr (not_or.mp halone))).mpr hp
      exact h.reservation f k p hkept hn
  · exact fun ⟨hnone, hnone'⟩ => hswept.epochSwept hc hempty hforgets hnone hnone'

/-! ## Epochs that change -/

theorem get_of_isEmpty {V : Type} {m : BTreeMap String V} (h : m.isEmpty = true) (k : String) :
    m[k]? = none := by
  rw [Std.ExtTreeMap.isEmpty_iff.mp h]
  exact Std.ExtTreeMap.getElem?_empty

/-- A state in which nothing is reserved and nothing is being stopped. -/
theorem entriesCoherent_of_no_reservations {s : SchedulerHandler} (hs : s.index.Sound)
    (hc : s.index.Coherent)
    (hfuncs : (s.funcs.toList.all fun q => q.2.pendingPods.isEmpty && q.2.stoppingPods = ∅) = true)
    (hnodes : (s.nodes.toList.all fun q => q.2.pendingPods.isEmpty) = true)
    (hsched : (s.snapshotSched.byId1.isEmpty && s.snapshotSched.byId2.isEmpty) = true) :
    EntriesCoherent s := by
  have hno : ∀ (f : String) fs, s.funcs[f]? = some fs → fs.pendingPods.isEmpty = true ∧
      fs.stoppingPods = ∅ := fun f fs hfs => by
    have h := List.all_eq_true.mp hfuncs (f, fs) (BTreeMap.mem_toList.mpr hfs)
    exact ⟨(Bool.and_eq_true_iff.mp h).1, of_decide_eq_true (Bool.and_eq_true_iff.mp h).2⟩
  have hreserved : ∀ f k p, s.reservation f k ≠ some p := fun f k p hp => by
    obtain ⟨fs, hfs, hget⟩ := reservation_eq.mp hp
    rw [get_of_isEmpty (hno f fs hfs).1] at hget
    cases hget
  refine ⟨hs, hc, fun n k ns p hns hp => ?_,
    fun f k p w hp => absurd hp (hreserved f k p), fun f k w hf => ?_, fun f n => ?_⟩
  · have hempty := List.all_eq_true.mp hnodes (n, ns) (BTreeMap.mem_toList.mpr hns)
    rw [get_of_isEmpty hempty] at hp
    cases hp
  · obtain ⟨fs, hfs, hmem⟩ := hf
    rw [(hno f fs hfs).2] at hmem
    exact absurd hmem (Finset.notMem_empty k)
  · rw [Bool.and_eq_true] at hsched
    unfold BiIndex.get12 BiIndex.get21 BTreeMap.getInner
    rw [get_of_isEmpty hsched.1, get_of_isEmpty hsched.2, Option.bind_none, Option.bind_none]

namespace Sample

/-- A node is reported, a function, and a pod of the function on the node. -/
def nodeReported : List Call :=
  [event (.nodeAdded node), event (.funcAdded func), event (.podAdded (pod "1" .ready))]

/-- A pod is reported whose node and function are not known. -/
def podReported : List Call := [event (.podAdded (pod "1" .ready))]

theorem entriesCoherent_nodeReported : EntriesCoherent (after nodeReported) := by
  have hreach : Reach next Fresh (fun s c => c.2.HomeOk s ∧ c.2.CoherentOk s)
      (after nodeReported) := by
    refine .step (c := event (.podAdded (pod "1" .ready))) (.step (c := event (.funcAdded func))
      (.step (c := event (.nodeAdded node)) (.init fresh_new) ⟨trivial, fun hnew => absurd hnew ?_⟩
        (next_after (l := []) ?_)) ⟨trivial, trivial⟩ (next_after (l := [_]) ?_))
      ⟨trivial, fun hnew => absurd hnew ?_⟩ (next_after (l := [_, _]) ?_)
    all_goals decide +kernel
  obtain ⟨hs, hc⟩ := index_of_reach hreach
  exact entriesCoherent_of_no_reservations hs hc
    (by decide +kernel) (by decide +kernel) (by decide +kernel)

theorem entriesCoherent_podReported : EntriesCoherent (after podReported) := by
  have hreach : Reach next Fresh (fun s c => c.2.HomeOk s ∧ c.2.CoherentOk s)
    (after podReported) := by
    refine .step (c := event (.podAdded (pod "1" .ready))) (.init fresh_new) ?_
      (next_after (l := []) (by decide +kernel))
    refine ⟨trivial, fun hnew => absurd hnew ?_⟩
    decide +kernel
  obtain ⟨hs, hc⟩ := index_of_reach hreach
  exact entriesCoherent_of_no_reservations hs hc
    (by decide +kernel) (by decide +kernel) (by decide +kernel)

end Sample

open Sample in
/-- A node with a pod that comes back. -/
theorem epochSwept_nodeReported : ∃ t,
    (checkNodeEpoch {} "n" 1 (after nodeReported)).state? = some t ∧
    ((after nodeReported).pods["t/s/f/1/1"]?.isSome = true ∧ t.pods["t/s/f/1/1"]? = none) ∧
    EpochSwept "n" (after nodeReported) t := by
  have hsome : ((checkNodeEpoch {} "n" 1 (after nodeReported)).state?).any
      (fun t => t.pods["t/s/f/1/1"]?.isNone) = true := by decide +kernel
  obtain ⟨t, ht, hgone⟩ := (Option.any_eq_true ..).mp hsome
  have hempty : (after nodeReported).funcPods.isEmpty = true := by decide +kernel
  have hreserved : ((after nodeReported).funcs.toList.all fun q => q.2.pendingPods.isEmpty) = true := by
    decide +kernel
  refine ⟨t, ht, ⟨by decide +kernel, Option.isNone_iff_eq_none.mp hgone⟩, (epochSwept_iff
    entriesCoherent_nodeReported (by decide +kernel) ht).mpr ⟨fun f k w hw => ?_, fun f k p hp => ?_⟩⟩
  · unfold BTreeMap.getInner at hw
    rw [get_of_isEmpty hempty] at hw
    cases hw
  · obtain ⟨fs, hfs, hget⟩ := reservation_eq.mp hp
    rw [get_of_isEmpty (List.all_eq_true.mp hreserved (f, fs) (BTreeMap.mem_toList.mpr hfs))] at hget
    cases hget

open Sample in
/-- A pod of an unknown function outlives the epoch of its node. -/
theorem parked_pod_survives : ¬ ∀ (env : Env) (n : String) (epoch : ℤ) (s t : SchedulerHandler),
    EntriesCoherent s → NewEpoch s n epoch → (checkNodeEpoch env n epoch s).state? = some t →
      EpochSwept n s t := by
  intro h
  have hsome : ((checkNodeEpoch {} "n" 1 (after podReported)).state?).any (fun t =>
      (t.funcPods.getInner (pod "1" .ready).funcKey (pod "1" .ready).podKey).any fun w =>
        w.pod.nodename == "n") = true := by decide +kernel
  obtain ⟨t, ht, hany⟩ := (Option.any_eq_true ..).mp hsome
  obtain ⟨w, hw, hnode⟩ := (Option.any_eq_true ..).mp hany
  exact (h {} "n" 1 _ t entriesCoherent_podReported (by decide +kernel) ht).funcPods _ _ w hw
    (beq_iff_eq.mp hnode)

end Inferx
