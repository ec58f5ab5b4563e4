import Inferx.Scheduler.Away
import Inferx.Scheduler.IdlePool

/-!
# Pods that are being stopped

A pod that has been marked terminating should never be leased again before it is deleted,
unless the RPC that evicted it is rolled back. The worker state does not keep the mark: a
report of the pod makes a new state out of what the node says. `Marking` follows the marks
beside the scheduler, with the RPC that evicted the pod, if it was one. As long as every
marked pod stays away from all gateways, the mark is final.
-/

namespace Inferx

open Proc SchedulerHandler

/-- An RPC that evicts pods. -/
inductive EvictingRpc where
  /-- a resume -/
  | resume (rpc : ResumeRpc)
  /-- a creation -/
  | start (rpc : StartRpc)
  deriving DecidableEq

/-- The pods it evicts. -/
def EvictingRpc.terminated : EvictingRpc → List String
  | .resume rpc => rpc.terminated
  | .start rpc => rpc.terminated

/-- The RPC that is sent. -/
def Effect.evicting : Effect → Option EvictingRpc
  | .resumeWorker rpc => some (.resume rpc)
  | .startWorker rpc => some (.start rpc)
  | _ => none

/-- The RPC of the running handler that evicts the pod. -/
def SchedulerHandler.evictor (s : SchedulerHandler) (k : String) : Option EvictingRpc :=
  (s.out.filterMap Effect.evicting).find? fun rpc => rpc.terminated.contains k

/-- The RPC that a handler rolls back. -/
def Handler.undone : Handler → Option EvictingRpc
  | .msg (.cleanupDuplicateSnapshot rpc) => some (.start rpc)
  | .msg (.resumeWorkerComplete rpc (some e)) => if isSafeToRestore e then some (.resume rpc) else none
  | .msg (.startWorkerComplete rpc (some e)) => if isSafeToRestore e then some (.start rpc) else none
  | _ => none

/-- The scheduler, the pods that have been marked terminating, and the RPCs that evicted them. -/
structure Marking where
  /-- the scheduler -/
  sched : SchedulerHandler := {}
  /-- the marks -/
  marks : String → Option (Option EvictingRpc) := fun _ => none

namespace Marking

/-- Does the call roll back the RPC that evicted the pod, or is the pod a new one? -/
def lifts (x : Marking) (h : Handler) (k : String) : Bool :=
  match h with
  | .event (.podAdded pod) => pod.podKey == k
  | h => h.undone.any fun rpc => rpc.terminated.contains k && x.marks k == some (some rpc)

/-- The mark of a pod after a call that has left the scheduler in the state `t`. -/
def marksAfter (x : Marking) (h : Handler) (t : SchedulerHandler) (k : String) :
    Option (Option EvictingRpc) :=
  match t.podState k with
  | none => none
  -- a mark that is there already keeps its RPC, unless a new one evicts the pod
  | some .terminating => some ((t.evictor k).or (x.marks k).join)
  | some _ => if x.lifts h k then none else x.marks k

/-- A call of a handler. -/
def next (x : Marking) (c : Call) : Option Marking :=
  (x.sched.next c).map fun t => ⟨t, x.marksAfter c.2 t⟩

/-- Some calls. -/
def calls (x : Marking) (l : List Call) : Option Marking := l.foldlM next x

/-- A scheduler that has just started. -/
structure Start (x : Marking) : Prop where
  /-- nothing is known -/
  fresh : Fresh x.sched
  /-- nothing is marked -/
  marks : ∀ k, x.marks k = none

/-- The call leaves every marked pod where it is, unless it lifts its mark. -/
def Ok (x : Marking) (c : Call) : Prop :=
  c.2.IndexOk x.sched ∧ ∀ k, (x.marks k).isSome → x.lifts c.2 k = false →
    c.2.KeepsAway c.1 x.sched ∅ k ∧ ¬ c.2.Relists k

/-- No marked pod is handed out, and none comes into the pool unless its mark is lifted. -/
structure Absorbed (x : Marking) (c : Call) (t : SchedulerHandler) : Prop where
  /-- answers -/
  grants : ∀ k g, (x.marks k).isSome → (k, g) ∉ t.grants
  /-- the idle pool -/
  idle : ∀ k, (x.marks k).isSome → x.lifts c.2 k = false → k ∈ t.idlePods → k ∈ x.sched.idlePods

/-- A marked pod is away from all gateways. -/
structure Inv (x : Marking) : Prop where
  /-- the index is sound -/
  sound : x.sched.index.Sound
  /-- the pods -/
  away : ∀ k, (x.marks k).isSome → (x.sched.slot k).Away ∅

variable {x y : Marking} {c : Call} {h : Handler} {t : SchedulerHandler} {k : String} {g : ℤ}

/-- A mark is new, or it has been there and is not lifted. -/
theorem marksAfter_isSome (hmark : (x.marksAfter h t k).isSome) :
    t.podState k = some .terminating ∨ (x.marks k).isSome ∧ x.lifts h k = false := by
  simp only [marksAfter] at hmark
  split at hmark
  next => cases hmark
  next hstate => exact Or.inl hstate
  next =>
    split at hmark
    next => cases hmark
    next hlifts => exact Or.inr ⟨hmark, Bool.eq_false_iff.mpr hlifts⟩

/-- **The step.** A call that leaves the marked pods where they are keeps them away. -/
theorem Inv.next (hx : x.Inv) (hok : x.Ok c) (hnext : x.sched.next c = some t) :
    Inv ⟨t, x.marksAfter c.2 t⟩ where
  sound := next_sound hx.sound hok.1 hnext
  away k hmark := by
    rcases marksAfter_isSome hmark with hstate | ⟨hmark, hlifts⟩
    · exact away_of_podState hstate nofun nofun
    · exact (away_next hx.sound hok.1 (hok.2 k hmark hlifts).1 hnext (hx.away k hmark)).1

theorem Start.inv (h : x.Start) : x.Inv where
  sound := h.fresh.sound
  away k hmark := by
    rw [h.marks k] at hmark
    cases hmark

theorem Inv.absorbed (hx : x.Inv) (hok : x.Ok c) (hnext : x.sched.next c = some t) :
    x.Absorbed c t where
  grants k g hmark hgrant := by
    rcases next_grantsOne hx.sound hok.1 hnext with hnone | ⟨k', g', hone, hoffer, -⟩
    · rw [hnone] at hgrant
      cases hgrant
    · rw [hone] at hgrant
      obtain ⟨rfl, rfl⟩ := Prod.mk.inj (List.mem_singleton.mp hgrant)
      refine not_offered c.1 (hx.away k hmark) (fun pod hreport => ?_) hoffer
      exact (hok.2 k hmark (by rw [hreport]; rfl)).1
  idle k hmark hlifts hidle := by
    obtain ⟨hkeep, hrelist⟩ := hok.2 k hmark hlifts
    exact ((away_next hx.sound hok.1 hkeep hnext (hx.away k hmark)).2 hidle).resolve_right hrelist

/-- **A mark is final** in every run whose calls leave the marked pods where they are. -/
theorem absorbed_of_reach (h : Reach next Start Ok x) (hok : x.Ok c) (hnext : x.sched.next c = some t) :
    x.Absorbed c t := by
  have hinv : x.Inv := by
    refine h.invariant (I := Inv) (fun _ h => h.inv) fun x c y hx hok hnext => ?_
    obtain ⟨t, ht, rfl⟩ := Option.map_eq_some_iff.mp hnext
    exact hx.next hok ht
  exact hinv.absorbed hok hnext

/-- The state after some calls from the start. -/
def after (l : List Call) : Marking := (calls {} l).getD {}

theorem start_new : Start {} := ⟨fresh_new, fun _ => rfl⟩

theorem calls_eq_after {l : List Call} (h : (calls {} l).isSome) : calls {} l = some (after l) := by
  obtain ⟨x, hx⟩ := Option.isSome_iff_exists.mp h
  simp only [after, hx, Option.getD_some]

theorem next_after {l : List Call} {c : Call} (h : (calls {} (l ++ [c])).isSome) :
    (after l).next c = some (after (l ++ [c])) :=
  next_getD_foldlM (f := next) h

end Marking

namespace Sample

/-- The pod is to be stopped. -/
def kill : Call := msg (.killPod ⟨"t", "s", "f", 1, "1"⟩ 0)

/-- The pod is reported again. -/
def report (state : PodState) : Call := event (.podModified (pod "1" state))

/-- A ready pod is to be stopped. -/
def killed : List Call := readyPod ++ [kill]

/-- The node reports it once more before it stops it. -/
def killedReady : List Call := killed ++ [report .ready]

end Sample

namespace Marking

/-- A report that does not say ready leaves the mark. -/
theorem absorbed_after_report :
    ∃ t, (after Sample.killed).sched.next (Sample.report .loading) = some t ∧
      (after Sample.killed).Absorbed (Sample.report .loading) t := by
  have hreach : Reach next Start Ok (after Sample.killed) := by
    have h₁ : Reach next Start Ok (after [Sample.event (.nodeAdded Sample.node)]) := by
      refine .step (c := Sample.event (.nodeAdded Sample.node)) (.init start_new)
        ⟨⟨trivial, ?_⟩, fun _ _ _ => ⟨trivial, id⟩⟩ (next_after (l := []) (by decide +kernel))
      show PodIndex.NodeArrivable _ _
      decide +kernel
    have h₂ : Reach next Start Ok (after [Sample.event (.nodeAdded Sample.node),
        Sample.event (.funcAdded Sample.func)]) := by
      refine .step (c := Sample.event (.funcAdded Sample.func)) h₁
        ⟨⟨trivial, ?_⟩, fun _ _ _ => ⟨trivial, id⟩⟩ (next_after (l := [_]) (by decide +kernel))
      show PodIndex.FuncArrivable _ _
      decide +kernel
    have h₃ : Reach next Start Ok (after Sample.readyPod) := by
      refine .step (c := Sample.event (.podAdded (Sample.pod "1" .ready))) h₂
        ⟨⟨trivial, fun hnew => ?_⟩, fun k _ hlifts => ⟨beq_eq_false_iff_ne.mp hlifts, id⟩⟩
        (next_after (l := [_, _]) (by decide +kernel))
      exact absurd hnew (by decide +kernel)
    exact .step (c := Sample.kill) h₃ ⟨⟨trivial, trivial⟩, fun _ _ _ => ⟨trivial, id⟩⟩
      (next_after (by decide +kernel))
  obtain ⟨t, ht⟩ : ∃ t, (after Sample.killed).sched.next (Sample.report .loading) = some t :=
    Option.isSome_iff_exists.mp (by decide +kernel)
  refine ⟨t, ht, absorbed_of_reach hreach ⟨⟨?_, trivial⟩, fun k _ _ => ⟨fun _ => nofun, id⟩⟩ ht⟩
  show PodIndex.SameHome _ _
  decide +kernel

/-- A ready report of a pod that is to be stopped makes it idle again, and a gateway gets it. -/
theorem ready_report_drops_mark : ¬ ∀ (l : List Call) (x : Marking) (c : Call)
    (t : SchedulerHandler), calls {} l = some x → x.sched.next c = some t → x.Absorbed c t := by
  intro h
  obtain ⟨t, ht⟩ : ∃ t, (after Sample.killedReady).sched.next (Sample.lease 7) = some t :=
    Option.isSome_iff_exists.mp (by decide +kernel)
  refine (h Sample.killedReady _ (Sample.lease 7) t (calls_eq_after (by decide +kernel)) ht).grants
    "t/s/f/1/1" 7 (by decide +kernel) ?_
  have hgrants : ((after Sample.killedReady).sched.next (Sample.lease 7)).map
      SchedulerHandler.grants = some [("t/s/f/1/1", 7)] := by decide +kernel
  rw [ht, Option.map_some, Option.some.injEq] at hgrants
  rw [hgrants]
  exact List.mem_singleton_self _

end Marking

end Inferx
