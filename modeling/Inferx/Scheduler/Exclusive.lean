import Inferx.Scheduler.Away
import Inferx.Scheduler.IdlePool

/-!
# Exclusive leases

A gateway holds a pod from the answer that hands it out until it returns the pod, is timed
out, or the pod goes. The scheduler itself only knows the worker state of the pod, and a
return does not say who sends it: `Holding` follows the holders beside the scheduler. As
long as every held pod stays away from the other gateways, a pod is handed out only when
nobody holds it.
-/

namespace Inferx

open Proc SchedulerHandler

/-- A call, and the gateway that has sent the message, if it is one of a gateway. -/
structure Received where
  /-- the call -/
  call : Call
  /-- the gateway -/
  sender : ℤ := 0

/-- The scheduler, and which gateway holds which pod. -/
structure Holding where
  /-- the scheduler -/
  sched : SchedulerHandler := {}
  /-- the gateways -/
  holder : String → Option ℤ := fun _ => none

namespace Holding

/-- Does the call end the lease of the pod `k` that `g` holds? -/
def ends (x : Holding) (c : Received) (k : String) (g : ℤ) : Bool :=
  match c.call.2 with
  | .msg (.returnWorker req _) => req.worker.podKey == k && c.sender == g
  -- a pod that is there can only be added once it is gone, with the old epoch of its node
  | .event (.podAdded pod) => pod.podKey == k
  | .gatewayTimeout => (x.sched.timeoutGateways c.call.1).contains g
  | _ => false

/-- The holder of a pod after a call that has left the scheduler in the state `t`. -/
def holderAfter (x : Holding) (c : Received) (t : SchedulerHandler) (k : String) : Option ℤ :=
  match t.grants.find? fun p => p.1 == k with
  | some p => some p.2
  | none => (x.holder k).filter fun g => t.pods.contains k && !x.ends c k g

/-- A call of a handler. -/
def next (x : Holding) (c : Received) : Option Holding :=
  (x.sched.next c.call).map fun t => ⟨t, x.holderAfter c t⟩

/-- Some calls. -/
def calls (x : Holding) (l : List Received) : Option Holding := l.foldlM next x

/-- A scheduler that has just started. -/
structure Start (x : Holding) : Prop where
  /-- nothing is known -/
  fresh : Fresh x.sched
  /-- nothing is leased -/
  holder : ∀ k, x.holder k = none

/-- The call leaves every held pod where it is, unless it ends its lease. -/
def Ok (x : Holding) (c : Received) : Prop :=
  c.call.2.IndexOk x.sched ∧ ∀ k g, x.holder k = some g → x.ends c k g = false →
    c.call.2.KeepsAway c.call.1 x.sched {g} k

/-- Only pods that nobody holds are handed out, one at a time, and a return by another gateway
than the holder does not make a pod idle. -/
structure Exclusive (x : Holding) (c : Received) (t : SchedulerHandler) : Prop where
  /-- one answer -/
  one : t.grants.length ≤ 1
  /-- nobody holds the pod -/
  free : ∀ k g, (k, g) ∈ t.grants → x.holder k = none
  /-- a stale return -/
  stale : ∀ req tx g, c.call.2 = .msg (.returnWorker req tx) →
    x.holder req.worker.podKey = some g → c.sender ≠ g →
    t.podState req.worker.podKey ≠ some .idle

/-- A held pod is away from the other gateways. -/
structure Inv (x : Holding) : Prop where
  /-- the index is sound -/
  sound : x.sched.index.Sound
  /-- the pods -/
  away : ∀ k g, x.holder k = some g → (x.sched.slot k).Away {g}

variable {x y : Holding} {c : Received} {t : SchedulerHandler} {k : String} {g : ℤ}

/-- A lease that goes on: the pod has not been handed out, and the call has not ended it. -/
theorem holderAfter_eq_some (h : x.holderAfter c t k = some g) :
    (k, g) ∈ t.grants ∨ x.holder k = some g ∧ x.ends c k g = false := by
  simp only [holderAfter] at h
  split at h
  next p hp =>
    refine Or.inl ?_
    have hkey : p.1 = k := by simpa using List.find?_some hp
    have hgateway : p.2 = g := Option.some.inj h
    rw [← hkey, ← hgateway]
    exact List.mem_of_find?_eq_some hp
  next =>
    obtain ⟨hheld, hstays⟩ := Option.filter_eq_some_iff.mp h
    simp only [Bool.and_eq_true, Bool.not_eq_true'] at hstays
    exact Or.inr ⟨hheld, hstays.2⟩

/-- What is handed out is not held. -/
theorem Inv.not_held (hx : x.Inv) (hok : x.Ok c) (hoffer : c.call.2.Offers x.sched k) :
    x.holder k = none := by
  rcases hheld : x.holder k with _ | g
  · rfl
  · refine absurd hoffer (not_offered c.call.1 (hx.away k g hheld) fun pod hreport => ?_)
    exact hok.2 k g hheld (by simp only [ends, hreport])

/-- **The step.** A call that leaves the held pods where they are keeps them away. -/
theorem Inv.next (hx : x.Inv) (hok : x.Ok c) (hnext : x.sched.next c.call = some t) :
    Inv ⟨t, x.holderAfter c t⟩ where
  sound := next_sound hx.sound hok.1 hnext
  away k g hheld := by
    rcases holderAfter_eq_some hheld with hgrant | ⟨hheld, hstays⟩
    · rcases next_grantsOne hx.sound hok.1 hnext with hnone | ⟨k', g', hone, -, hworks⟩
      · rw [hnone] at hgrant
        cases hgrant
      · rw [hone] at hgrant
        obtain ⟨rfl, rfl⟩ := Prod.mk.inj (List.mem_singleton.mp hgrant)
        refine away_of_podState hworks nofun fun g' hg' => ?_
        exact (WorkerPodState.working.inj hg').symm
    · exact (away_next hx.sound hok.1 (hok.2 k g hheld hstays) hnext (hx.away k g hheld)).1

theorem Start.inv (h : x.Start) : x.Inv where
  sound := h.fresh.sound
  away k g hheld := by
    rw [h.holder k] at hheld
    cases hheld

theorem Inv.exclusive (hx : x.Inv) (hok : x.Ok c) (hnext : x.sched.next c.call = some t) :
    x.Exclusive c t where
  one := by
    rcases next_grantsOne hx.sound hok.1 hnext with hnone | ⟨k, g, hone, -⟩
    · simp [hnone]
    · simp [hone]
  free k g hgrant := by
    rcases next_grantsOne hx.sound hok.1 hnext with hnone | ⟨k', g', hone, hoffer, -⟩
    · rw [hnone] at hgrant
      cases hgrant
    · rw [hone] at hgrant
      obtain ⟨rfl, rfl⟩ := Prod.mk.inj (List.mem_singleton.mp hgrant)
      exact hx.not_held hok hoffer
  stale req tx g hreturn hheld hsender := by
    have hstays : x.ends c req.worker.podKey g = false := by
      simp [ends, hreturn, hsender]
    exact podState_ne_idle
      (away_next hx.sound hok.1 (hok.2 _ g hheld hstays) hnext (hx.away _ g hheld)).1

/-- **Leases are exclusive** in every run whose calls leave the held pods where they are. -/
theorem exclusive_of_reach (h : Reach next Start Ok x) (hok : x.Ok c)
    (hnext : x.sched.next c.call = some t) : x.Exclusive c t := by
  have hinv : x.Inv := by
    refine h.invariant (I := Inv) (fun _ h => h.inv) fun x c y hx hok hnext => ?_
    obtain ⟨t, ht, rfl⟩ := Option.map_eq_some_iff.mp hnext
    exact hx.next hok ht
  exact hinv.exclusive hok hnext

/-- The state after some calls from the start. -/
def after (l : List Received) : Holding := (calls {} l).getD {}

theorem start_new : Start {} := ⟨fresh_new, fun _ => rfl⟩

theorem calls_eq_after {l : List Received} (h : (calls {} l).isSome) : calls {} l = some (after l) := by
  obtain ⟨x, hx⟩ := Option.isSome_iff_exists.mp h
  simp only [after, hx, Option.getD_some]

theorem next_after {l : List Received} {c : Received} (h : (calls {} (l ++ [c])).isSome) :
    (after l).next c = some (after (l ++ [c])) :=
  next_getD_foldlM (f := next) h

end Holding

namespace Sample

/-- A call that no gateway sends. -/
def unsent (c : Call) : Received := { call := c }

/-- A gateway asks for a pod. -/
def leaseBy (gatewayId : ℤ) : Received := ⟨lease gatewayId, gatewayId⟩

/-- A gateway returns the pod. -/
def returnBy (gatewayId : ℤ) : Received where
  call := msg (.returnWorker { worker := ⟨"t", "s", "f", 1, "1"⟩, failworker := false } 0)
  sender := gatewayId

/-- A pod is leased and returned. -/
def returned : List Received := readyPod.map unsent ++ [leaseBy 7, returnBy 7]

/-- The pod is leased again, and the first gateway repeats its return. -/
def returnedAgain : List Received := returned ++ [leaseBy 8, returnBy 7]

end Sample

namespace Holding

/-- A pod that has been returned is leased again. -/
theorem exclusive_after_return :
    ∃ t, (after Sample.returned).sched.next (Sample.leaseBy 8).call = some t ∧
      (after Sample.returned).Exclusive (Sample.leaseBy 8) t := by
  have hreach : Reach next Start Ok (after Sample.returned) := by
    have h₁ : Reach next Start Ok (after [Sample.unsent (Sample.event (.nodeAdded Sample.node))]) := by
      refine .step (c := Sample.unsent (Sample.event (.nodeAdded Sample.node))) (.init start_new)
        ⟨⟨trivial, ?_⟩, fun _ _ _ _ => trivial⟩ (next_after (l := []) (by decide +kernel))
      show PodIndex.NodeArrivable _ _
      decide +kernel
    have h₂ : Reach next Start Ok (after [Sample.unsent (Sample.event (.nodeAdded Sample.node)),
        Sample.unsent (Sample.event (.funcAdded Sample.func))]) := by
      refine .step (c := Sample.unsent (Sample.event (.funcAdded Sample.func))) h₁
        ⟨⟨trivial, ?_⟩, fun _ _ _ _ => trivial⟩ (next_after (l := [_]) (by decide +kernel))
      show PodIndex.FuncArrivable _ _
      decide +kernel
    have h₃ : Reach next Start Ok (after (Sample.readyPod.map Sample.unsent)) := by
      refine .step (c := Sample.unsent (Sample.event (.podAdded (Sample.pod "1" .ready)))) h₂
        ⟨⟨trivial, fun hnew => ?_⟩, fun k g _ hstays => ?_⟩
        (next_after (l := [_, _]) (by decide +kernel))
      · exact absurd hnew (by decide +kernel)
      · exact beq_eq_false_iff_ne.mp hstays
    have h₄ : Reach next Start Ok (after (Sample.readyPod.map Sample.unsent ++ [Sample.leaseBy 7])) :=
      .step (c := Sample.leaseBy 7) h₃ ⟨⟨trivial, trivial⟩, fun _ _ _ _ => trivial⟩
        (next_after (by decide +kernel))
    refine .step (c := Sample.returnBy 7) h₄ ⟨⟨trivial, trivial⟩, fun k g hheld hstays hkey => ?_⟩
      (next_after (by decide +kernel))
    -- the gateway that returns the pod is the one that holds it
    have hholder : (after (Sample.readyPod.map Sample.unsent ++ [Sample.leaseBy 7])).holder
        "t/s/f/1/1" = some 7 := by decide +kernel
    obtain rfl : "t/s/f/1/1" = k := hkey
    obtain rfl : 7 = g := Option.some.inj (hholder.symm.trans hheld)
    revert hstays
    decide +kernel
  obtain ⟨t, ht⟩ : ∃ t, (after Sample.returned).sched.next (Sample.leaseBy 8).call = some t :=
    Option.isSome_iff_exists.mp (by decide +kernel)
  exact ⟨t, ht, exclusive_of_reach hreach ⟨⟨trivial, trivial⟩, fun _ _ _ _ => trivial⟩ ht⟩

/-- A return that is repeated takes the pod from the gateway that has leased it since, and a
third one gets it. -/
theorem stale_return_leases_twice : ¬ ∀ (l : List Received) (x : Holding) (c : Received)
    (t : SchedulerHandler), calls {} l = some x → x.sched.next c.call = some t → x.Exclusive c t := by
  intro h
  obtain ⟨t, ht⟩ : ∃ t, (after Sample.returnedAgain).sched.next (Sample.leaseBy 9).call = some t :=
    Option.isSome_iff_exists.mp (by decide +kernel)
  have hfree := (h Sample.returnedAgain _ (Sample.leaseBy 9) t (calls_eq_after (by decide +kernel))
    ht).free "t/s/f/1/1" 9 ?_
  · revert hfree
    decide +kernel
  · have hgrants : ((after Sample.returnedAgain).sched.next (Sample.leaseBy 9).call).map
        SchedulerHandler.grants = some [("t/s/f/1/1", 9)] := by decide +kernel
    rw [ht, Option.map_some, Option.some.injEq] at hgrants
    rw [hgrants]
    exact List.mem_singleton_self _

end Holding

end Inferx
