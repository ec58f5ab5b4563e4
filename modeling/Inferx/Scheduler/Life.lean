import Mathlib.Logic.Relation
import Inferx.Scheduler.Index

/-!
# The life of a pod

The scheduler seen from one pod: a `Slot` is what the scheduler knows of the pod
with a given key, the tracked object with its worker cell, if there is one, and
whether the key is in the idle pool. `Slot.Step` lists everything the scheduler
ever does to a slot, one `Act` for each kind of transition, with what the code
checks before it and what it changes.

`Lives A s s'` says that between `s` and `s'` every slot has only gone through
acts that `A` allows for its key. Every handler is shown to be such a move, and
what a pod can go through is then argued about on slots alone.
-/

namespace Inferx

open Proc

/-! ## Slots and acts -/

/-- What the scheduler knows of the pod with a given key. -/
structure Slot where
  /-- the tracked pod and its cell -/
  entry : Option (FuncPod × WorkerCell)
  /-- is the key in the idle pool? -/
  idle : Bool

/-- The slot of a key. -/
def SchedulerHandler.slot (s : SchedulerHandler) (k : String) : Slot where
  entry := s.pods[k]?.map fun w => (w.pod, s.workers w.ref)
  idle := decide (k ∈ s.idlePods)

/-- What can be done to a slot. -/
inductive Act where
  /-- leased from the idle pool -/
  | lease (gatewayId : ℤ) (consumer : Option String)
  /-- taken over by a connecting gateway -/
  | connect (gatewayId : ℤ)
  /-- returned by a gateway -/
  | giveBack
  /-- taken back from a gateway that is gone -/
  | timeout (gatewayId : ℤ)
  /-- evicted for another pod -/
  | evict
  /-- stopped out of the idle pool -/
  | kill
  /-- marked terminating, whatever it was -/
  | mark
  /-- resumed -/
  | resume (consumer : Option String)
  /-- its resume is rolled back -/
  | rollback
  /-- its eviction is rolled back -/
  | restore
  /-- put into the idle pool and nothing else -/
  | relist
  /-- a key without a pod is dropped from the idle pool -/
  | dropMissing
  /-- reported for the first time -/
  | added (pod : FuncPod)
  /-- reported again, and nothing else -/
  | rebuilt (pod : FuncPod)
  /-- reported again as ready, and handed to a waiting lease request -/
  | granted (pod : FuncPod) (gatewayId : ℤ) (consumer : Option String)
  /-- reported again as ready, and no lease request waits for it -/
  | settled (pod : FuncPod)
  /-- reported as deleted -/
  | removed
  /-- discarded when its node agent restarted -/
  | dropped
  /-- idle again after a restart of its node agent -/
  | syncIdle
  /-- standby again after a restart of its node agent -/
  | syncStandby

/-- The cell of a pod that is reported again: a leased pod stays leased. -/
def WorkerCell.rebuild (c : WorkerCell) (pod : FuncPod) : WorkerCell :=
  match c.state with
  | .working _ => c
  | _ => WorkerCell.new pod.state

namespace WorkerCell

variable {c : WorkerCell} {pod : FuncPod}

theorem rebuild_working {g : ℤ} (h : c.state = .working g) : c.rebuild pod = c := by
  unfold rebuild
  rw [h]

theorem rebuild_other (h : ∀ g, c.state ≠ .working g) : c.rebuild pod = WorkerCell.new pod.state := by
  unfold rebuild
  split
  next g hg => exact absurd hg (h g)
  next => rfl

end WorkerCell

/-- The transitions of a slot. -/
inductive Slot.Step : Act → Slot → Slot → Prop where
  | lease {pod c g t} : c.state = .idle → pod.state = .ready →
      Step (.lease g t) ⟨some (pod, c), true⟩ ⟨some (pod, ⟨.working g, t⟩), false⟩
  | connect {pod c b g} : c.state = .idle ∨ c.state = .working g →
      Step (.connect g) ⟨some (pod, c), b⟩ ⟨some (pod, { c with state := .working g }), false⟩
  | giveBack {pod c b} : c.state ≠ .terminating →
      Step .giveBack ⟨some (pod, c), b⟩ ⟨some (pod, ⟨.idle, none⟩), true⟩
  | timeout {pod c b g} : c.state = .working g →
      Step (.timeout g) ⟨some (pod, c), b⟩ ⟨some (pod, ⟨.idle, none⟩), true⟩
  | evict {pod c} :
      Step .evict ⟨some (pod, c), true⟩ ⟨some (pod, { c with state := .terminating }), false⟩
  | kill {pod c b} : c.state = .idle →
      Step .kill ⟨some (pod, c), b⟩ ⟨some (pod, { c with state := .terminating }), false⟩
  | mark {pod c b} :
      Step .mark ⟨some (pod, c), b⟩ ⟨some (pod, { c with state := .terminating }), b⟩
  | resume {pod c b t} : c.state = .standby → pod.state = .standby →
      Step (.resume t) ⟨some (pod, c), b⟩ ⟨some (pod, ⟨.resuming, t⟩), b⟩
  | rollback {pod c b} :
      Step .rollback ⟨some (pod, c), b⟩ ⟨some (pod, { c with state := .standby }), b⟩
  | restore {pod c b} :
      Step .restore ⟨some (pod, c), b⟩ ⟨some (pod, { c with state := .idle }), true⟩
  | relist {e b} : Step .relist ⟨some e, b⟩ ⟨some e, true⟩
  | dropMissing {b} : Step .dropMissing ⟨none, b⟩ ⟨none, false⟩
  | added {pod b} :
      Step (.added pod) ⟨none, b⟩
        ⟨some (pod, WorkerCell.new pod.state), b || pod.state == .ready⟩
  | rebuilt {old pod c b} :
      Step (.rebuilt pod) ⟨some (old, c), b⟩ ⟨some (pod, c.rebuild pod), b⟩
  | granted {old pod c b g t} : (c.rebuild pod).state = .idle → pod.state = .ready →
      Step (.granted pod g t) ⟨some (old, c), b⟩ ⟨some (pod, ⟨.working g, t⟩), b⟩
  | settled {old pod c b} : (c.rebuild pod).state = .idle → pod.state = .ready →
      Step (.settled pod) ⟨some (old, c), b⟩ ⟨some (pod, ⟨.idle, none⟩), true⟩
  | removed {e b} : Step .removed ⟨some e, b⟩ ⟨none, false⟩
  | dropped {pod c b} : pod.state ≠ .standby → pod.state ≠ .ready →
      Step .dropped ⟨some (pod, c), b⟩ ⟨none, b⟩
  | syncIdle {pod c b} : pod.state = .ready → (∀ g, c.state ≠ .working g) →
      Step .syncIdle ⟨some (pod, c), b⟩ ⟨some (pod, { c with state := .idle }), true⟩
  | syncStandby {pod c b} : pod.state = .standby →
      Step .syncStandby ⟨some (pod, c), b⟩ ⟨some (pod, { c with state := .standby }), b⟩

/-- Any number of transitions, by acts that `A` allows. -/
def Path (A : Act → Prop) : Slot → Slot → Prop :=
  Relation.ReflTransGen fun a b => ∃ act, A act ∧ Slot.Step act a b

namespace Path

variable {A B : Act → Prop} {a b : Slot}

theorem refl (A : Act → Prop) (a : Slot) : Path A a a := Relation.ReflTransGen.refl

theorem single {act : Act} (hA : A act) (h : Slot.Step act a b) : Path A a b :=
  Relation.ReflTransGen.single ⟨act, hA, h⟩

theorem trans {c : Slot} (h₁ : Path A a b) (h₂ : Path A b c) : Path A a c :=
  Relation.ReflTransGen.trans h₁ h₂

theorem mono (hAB : ∀ act, A act → B act) (h : Path A a b) : Path B a b := by
  induction h with
  | refl => exact refl B a
  | tail _ hs ih =>
    obtain ⟨act, hA, hs⟩ := hs
    exact ih.trans (single (hAB act hA) hs)

/-- **The invariant rule for slots.** -/
theorem invariant {I : Slot → Prop} (hstep : ∀ act a b, A act → Slot.Step act a b → I a → I b)
    (h : Path A a b) (ha : I a) : I b := by
  induction h with
  | refl => exact ha
  | tail _ hs ih =>
    obtain ⟨act, hA, hs⟩ := hs
    exact hstep act _ _ hA hs ih

end Path

/-! ## Moves -/

/-- The pod a lease answer hands out, and to which gateway. -/
def Effect.handsOut : Effect → Option (String × ℤ)
  | .leaseResp _ req (some podKey) resp =>
    if resp.error = "" then some (podKey, req.gatewayId) else none
  | _ => none

/-- The pods handed out by the running handler. -/
def SchedulerHandler.grants (s : SchedulerHandler) : List (String × ℤ) :=
  s.out.filterMap Effect.handsOut

/-- The part of the state the life of the pods depends on. -/
def SchedulerHandler.life (s : SchedulerHandler) :
    PodIndex × List (String × ℤ) × (String → Slot) :=
  (s.index, s.grants, s.slot)

/-- Does `A` allow to hand out this pod to this gateway? -/
def HandsOut (A : String → Act → Prop) (p : String × ℤ) : Prop :=
  (∃ t, A p.1 (.lease p.2 t)) ∨ ∃ pod t, A p.1 (.granted pod p.2 t)

/-- Between `s` and `s'`, every slot has only gone through acts that `A` allows
for its key; the index is the same and only pods that `A` allows to hand out
have been handed out. -/
structure Lives (A : String → Act → Prop) (s s' : SchedulerHandler) : Prop where
  /-- the pods are held where they were -/
  index : s'.index = s.index
  /-- what has been handed out -/
  grants : ∀ p ∈ s'.grants, p ∈ s.grants ∨ HandsOut A p
  /-- every slot has taken an allowed path -/
  path : ∀ k, Path (A k) (s.slot k) (s'.slot k)

instance (A : String → Act → Prop) : IsPreorder SchedulerHandler (Lives A) where
  refl s := ⟨rfl, fun _ hp => Or.inl hp, fun k => Path.refl (A k) (s.slot k)⟩
  trans _ _ _ h₁ h₂ := ⟨h₂.index.trans h₁.index,
    fun p hp => (h₂.grants p hp).elim (h₁.grants p) Or.inr,
    fun k => (h₁.path k).trans (h₂.path k)⟩

theorem HandsOut.mono {A B : String → Act → Prop} (hAB : ∀ k act, A k act → B k act)
    {p : String × ℤ} (h : HandsOut A p) : HandsOut B p :=
  h.imp (fun ⟨t, ht⟩ => ⟨t, hAB _ _ ht⟩) fun ⟨pod, t, ht⟩ => ⟨pod, t, hAB _ _ ht⟩

namespace Lives

variable {A B : String → Act → Prop} {s s' : SchedulerHandler}

theorem mono (hAB : ∀ k act, A k act → B k act) (h : Lives A s s') : Lives B s s' :=
  ⟨h.index, fun p hp => (h.grants p hp).imp_right (HandsOut.mono hAB),
    fun k => (h.path k).mono (hAB k)⟩

theorem of_life (h : s'.life = s.life) : Lives A s s' := by
  obtain ⟨hindex, hgrants, hslot⟩ := Prod.mk.inj h |>.imp_right Prod.mk.inj
  refine ⟨hindex, fun p hp => Or.inl (hgrants ▸ hp), fun k => ?_⟩
  rw [hslot]
  exact Path.refl _ _

/-- One slot takes one act. -/
theorem act {k : String} {x : Act} (hindex : s'.index = s.index) (hgrants : s'.grants = s.grants)
    (hA : A k x) (hk : Slot.Step x (s.slot k) (s'.slot k))
    (hne : ∀ a, a ≠ k → s'.slot a = s.slot a) : Lives A s s' := by
  refine ⟨hindex, fun p hp => Or.inl (hgrants ▸ hp), fun a => ?_⟩
  by_cases ha : a = k
  · subst ha
    exact Path.single hA hk
  · rw [hne a ha]
    exact Path.refl _ _

end Lives

/-- Panics that have nothing to do with the pod maps or the idle pool. -/
def Calm (p : Panic) : Prop :=
  p ≠ .addPodExists ∧ p ≠ .updatePodMissing ∧ p ≠ .nodeUpdatePodMissing ∧
    p ≠ .funcUpdatePodMissing ∧ p ≠ .removePodMissing ∧ p ≠ .idlePodMissing

theorem calm_fault (f : Fault) : Calm (.fault f) := by simp [Calm]

/-- A procedure that changes no pod and hands none out. -/
abbrev Quiet {α : Type} (x : SchedM α) : Prop := Moves (fun s s' => s'.life = s.life) Calm x

/-- A procedure that moves pods by acts that `A` allows, from a sound index. -/
abbrev MovesPods {α : Type} (A : String → Act → Prop) (x : SchedM α) : Prop :=
  MovesFrom (fun s => s.index.Sound) (Lives A) Calm x

theorem Lives.sound {A : String → Act → Prop} (s s' : SchedulerHandler) (hs : s.index.Sound)
    (h : Lives A s s') : s'.index.Sound := h.index ▸ hs

theorem Quiet.movesPods {α : Type} {A : String → Act → Prop} {x : SchedM α} (h : Quiet x) :
    MovesPods A x :=
  (Moves.mono h (fun _ _ => Lives.of_life) fun _ hp => hp).movesFrom

theorem MovesPods.bind {α β : Type} {A : String → Act → Prop} {x : SchedM α} {f : α → SchedM β}
    (hx : MovesPods A x) (hf : ∀ a, MovesPods A (f a)) : MovesPods A (x >>= f) :=
  MovesFrom.bind Lives.sound hx hf

theorem MovesPods.each {α : Type} {A : String → Act → Prop} {g : α → SchedM Unit} {l : List α}
    (h : ∀ a ∈ l, MovesPods A (g a)) : MovesPods A (Proc.each g l) :=
  MovesFrom.each Lives.sound h

theorem MovesPods.mono {α : Type} {A B : String → Act → Prop} {x : SchedM α} (h : MovesPods A x)
    (hAB : ∀ k act, A k act → B k act) : MovesPods B x :=
  MovesFrom.mono h (fun _ hs => hs) (fun _ _ h => h.mono hAB) fun _ hp => hp

/-! ## Slots after the building blocks -/

namespace SchedulerHandler

variable {s : SchedulerHandler} {k a : String} {w : WorkerPod} {c : WorkerCell}

theorem slot_of_tracked (hk : s.pods[k]? = some w) :
    s.slot k = ⟨some (w.pod, s.workers w.ref), decide (k ∈ s.idlePods)⟩ := by
  unfold slot
  rw [hk, Option.map_some]

theorem slot_of_untracked (hk : s.pods[k]? = none) :
    s.slot k = ⟨none, decide (k ∈ s.idlePods)⟩ := by
  unfold slot
  rw [hk, Option.map_none]

/-- Setting the state and then the consumer writes the whole cell. -/
theorem setConsumer_setState (x : WorkerPodState) (t : Option String) :
    (s.setState w x).setConsumer w t = s.setCell w ⟨x, t⟩ := by
  unfold setConsumer setState setCell
  simp only [Function.update_self, Function.update_idem]

theorem slot_setCell_self (hk : s.pods[k]? = some w) :
    (s.setCell w c).slot k = ⟨some (w.pod, c), (s.slot k).idle⟩ := by
  unfold slot setCell
  simp [hk]

/-- Writing the cell of a tracked pod changes no other slot. -/
theorem slot_setCell_of_ne (hs : s.index.Keyed) (hk : s.pods[k]? = some w) (ha : a ≠ k) :
    (s.setCell w c).slot a = s.slot a := by
  unfold slot setCell
  rcases hv : s.pods[a]? with _ | v
  · simp
  · have hne : v.ref ≠ w.ref := fun href => ha (hs.ref_inj a k v w hv hk href)
    simp [hne]

theorem slot_putIdle_self : (s.putIdle k).slot k = ⟨(s.slot k).entry, true⟩ := by
  unfold slot putIdle
  simp

theorem slot_putIdle_of_ne (ha : a ≠ k) : (s.putIdle k).slot a = s.slot a := by
  unfold slot putIdle
  simp [ha]

theorem slot_popIdle_self : (s.popIdle k).slot k = ⟨(s.slot k).entry, false⟩ := by
  unfold slot popIdle
  simp

theorem slot_popIdle_of_ne (ha : a ≠ k) : (s.popIdle k).slot a = s.slot a := by
  unfold slot popIdle
  simp [ha]

/-- Changing neither the pods, nor the cells, nor the idle pool changes no slot. -/
theorem slot_congr {s' : SchedulerHandler} (hpods : s'.pods = s.pods)
    (hworkers : s'.workers = s.workers) (hidle : s'.idlePods = s.idlePods) : s'.slot = s.slot := by
  funext k
  unfold slot
  rw [hpods, hworkers, hidle]

theorem mem_idlePods_of_slot {s' : SchedulerHandler} (h : s'.slot k = s.slot k) :
    k ∈ s'.idlePods ↔ k ∈ s.idlePods := by
  have hidle := congrArg Slot.idle h
  simpa [slot] using hidle

/-- The worker state of a tracked pod can be read off its slot. -/
theorem stateOf_of_entry {s' : SchedulerHandler} (hk : s.pods[k]? = some w)
    (hk' : s'.pods[k]? = some w) (h : (s'.slot k).entry = (s.slot k).entry) :
    s'.stateOf w = s.stateOf w := by
  rw [slot_of_tracked hk, slot_of_tracked hk'] at h
  exact congrArg (fun e : FuncPod × WorkerCell => e.2.state) (Option.some.inj h)

theorem life_eq {ix : PodIndex} {g : List (String × ℤ)} {sl : String → Slot} :
    s.life = (ix, g, sl) ↔ s.index = ix ∧ s.grants = g ∧ s.slot = sl := by
  unfold life
  rw [Prod.mk.injEq, Prod.mk.injEq]

theorem slot_of_life {s' : SchedulerHandler} (h : s'.life = s.life) : s'.slot = s.slot :=
  congrArg (fun l => l.2.2) h

theorem index_of_life {s' : SchedulerHandler} (h : s'.life = s.life) : s'.index = s.index :=
  congrArg (fun l => l.1) h

theorem life_congr {s' : SchedulerHandler} (hindex : s'.index = s.index)
    (hworkers : s'.workers = s.workers) (hidle : s'.idlePods = s.idlePods)
    (hgrants : s'.grants = s.grants) : s'.life = s.life := by
  unfold life
  rw [hindex, hgrants, slot_congr (pods_of_index hindex) hworkers hidle]

end SchedulerHandler

end Inferx
