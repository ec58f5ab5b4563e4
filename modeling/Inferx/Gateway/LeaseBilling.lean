import Mathlib.Tactic.Linarith
import Inferx.Lib.Runs
import Inferx.Gateway.FuncWorker

/-!
# Leased GPU time is billed

The ticks of a lease make up a ledger: each bills the time since the one before, in
whole milliseconds, so that the last one is at most a millisecond for each tick
behind the clock. What else a worker does, in whichever of its loops, leaves the
ledger alone. `leased_time_billed` says so for every run in which the pod is in the
cache when its lease is answered; `late_pod_not_billed` is a run in which it comes
too late.
-/

namespace Inferx.Gateway.FuncWorker

/-! ## The ledger of a lease -/

/-- The ticks of `gpus` GPUs that bill the time from `start` to `upto`. -/
structure Ledger (ticks : List UsageTick) (gpus : ℤ) (start upto : ℕ) : Prop where
  /-- each tick is for these GPUs -/
  count : ∀ t ∈ ticks, t.gpuCount = gpus
  /-- no time is billed twice -/
  disjoint : ticks.Pairwise fun a b => a.tickTime ≤ b.since
  /-- no tick is later -/
  time : ∀ t ∈ ticks, t.tickTime ≤ upto
  /-- no more than the time is billed -/
  le : start + (ticks.map UsageTick.intervalMs).sum * milli ≤ upto
  /-- and no less than the time without a millisecond for each tick -/
  ge : upto ≤ start + (ticks.map UsageTick.intervalMs).sum * milli + ticks.length * milli
  /-- no tick is final -/
  noFinal : ∀ t ∈ ticks, t.tickType ≠ .final

section Ledger

variable {ticks : List UsageTick} {gpus : ℤ} {start last now : ℕ} {t : UsageTick}

theorem Ledger.nil (gpus : ℤ) (start : ℕ) : Ledger [] gpus start start := by
  refine ⟨?_, List.Pairwise.nil, ?_, ?_, ?_, ?_⟩ <;> simp

/-- A tick for the time since the last one begins after it. -/
theorem le_since (hnow : last ≤ now) (htime : t.tickTime = now) (hms : t.intervalMs = (now - last) / milli) :
    last ≤ t.since := by
  have hdiv := Nat.div_mul_le_self (now - last) milli
  rw [UsageTick.since, htime, hms]
  omega

/-- One more tick bills the time since the last one, up to a millisecond. -/
theorem Ledger.total_append (h : Ledger ticks gpus start last) (hnow : last ≤ now)
    (hms : t.intervalMs = (now - last) / milli) :
    start + ((ticks ++ [t]).map UsageTick.intervalMs).sum * milli ≤ now ∧
      now ≤ start + ((ticks ++ [t]).map UsageTick.intervalMs).sum * milli + (ticks ++ [t]).length * milli := by
  have hle := h.le
  have hge := h.ge
  have hdiv := Nat.div_mul_le_self (now - last) milli
  have hmod := Nat.div_add_mod (now - last) milli
  have hlt : (now - last) % milli < milli := Nat.mod_lt _ (by decide)
  rw [List.map_append, List.sum_append, List.length_append, List.map_singleton, List.sum_singleton, hms,
    List.length_singleton]
  constructor
  · linarith [add_mul (ticks.map UsageTick.intervalMs).sum ((now - last) / milli) milli, Nat.sub_add_cancel hnow]
  · linarith [add_mul (ticks.map UsageTick.intervalMs).sum ((now - last) / milli) milli,
      add_mul ticks.length 1 milli, Nat.sub_add_cancel hnow, mul_comm milli ((now - last) / milli)]

theorem Ledger.disjoint_append (h : Ledger ticks gpus start last) (hsince : last ≤ t.since) :
    (ticks ++ [t]).Pairwise fun a b => a.tickTime ≤ b.since := by
  refine List.pairwise_append.mpr ⟨h.disjoint, List.pairwise_singleton _ _, fun a ha b hb => ?_⟩
  rw [List.mem_singleton.mp hb]
  exact (h.time a ha).trans hsince

theorem Ledger.count_append (h : Ledger ticks gpus start last) (ht : t.gpuCount = gpus) :
    ∀ a ∈ ticks ++ [t], a.gpuCount = gpus := by
  intro a ha
  obtain ha | ha := List.mem_append.mp ha
  · exact h.count a ha
  · rw [List.mem_singleton.mp ha]
    exact ht

/-- A tick that is not final. -/
theorem Ledger.append (h : Ledger ticks gpus start last) (hnow : last ≤ now) (htime : t.tickTime = now)
    (hms : t.intervalMs = (now - last) / milli) (hgpus : t.gpuCount = gpus) (htype : t.tickType ≠ .final) :
    Ledger (ticks ++ [t]) gpus start now := by
  obtain ⟨hle, hge⟩ := h.total_append hnow hms
  refine ⟨h.count_append hgpus, h.disjoint_append (le_since hnow htime hms), ?_, hle, hge, ?_⟩
  · intro a ha
    obtain ha | ha := List.mem_append.mp ha
    · exact (h.time a ha).trans hnow
    · rw [List.mem_singleton.mp ha, htime]
  · intro a ha
    obtain ha | ha := List.mem_append.mp ha
    · exact h.noFinal a ha
    · rw [List.mem_singleton.mp ha]
      exact htype

theorem Ledger.final (h : Ledger ticks gpus start last) : ticks.Pairwise fun a _ => a.tickType ≠ .final :=
  List.Pairwise.imp_of_mem (fun ha _ _ => h.noFinal _ ha) h.disjoint

theorem Ledger.final_append (h : Ledger ticks gpus start last) (t : UsageTick) :
    (ticks ++ [t]).Pairwise fun a _ => a.tickType ≠ .final := by
  refine List.pairwise_append.mpr ⟨h.final, List.pairwise_singleton _ _, fun a ha _ _ => ?_⟩
  exact h.noFinal a ha

end Ledger

/-! ## The invariant -/

/-- Has the worker a lease, and is not finished? -/
def Pc.live : Pc → Bool
  | leasing => false
  | stopped => false
  | _ => true

/-- The time from `start` to the last tick is billed, and the ticks go on. -/
structure Billing (w : Worker) (gpus : ℤ) (start : ℕ) : Prop where
  /-- when the lease started -/
  leasedAt : w.leasedAt = some start
  /-- it is not over -/
  finishedAt : w.finishedAt = none
  /-- there are GPUs to bill -/
  count : w.info.gpuCount = gpus ∧ gpus ≠ 0
  /-- there is a session -/
  session : ∃ sessionId, w.info.sessionId = some sessionId
  /-- and a last tick -/
  ledger : ∃ last, w.info.lastTickTime = some last ∧ last ≤ w.now ∧ Ledger w.ticks gpus start last

/-- What holds of every run in which the pod is in the cache in time. -/
structure Inv (w : Worker) : Prop where
  /-- a lease comes first -/
  leasing : w.pc = .leasing → w.leased = none
  /-- nothing is billed without -/
  unleased : w.leased = none → w.ticks = [] ∧ w.pc.live = false ∧ w.finishedAt = none
  /-- the time is billed up to the last tick -/
  billing : ∀ pod, w.leased = some pod → 0 < pod.gpuCount → w.pc.live = true →
    ∃ start, Billing w pod.gpuCount.toNat start
  /-- and all of it in the end -/
  billed : ∀ pod, w.leased = some pod → 0 < pod.gpuCount → w.pc.live = false → w.Billed pod

section Invariant

variable {w w' : Worker}

theorem Inv.fresh (h : w.Fresh) : Inv w := by
  obtain ⟨ident, now, pods, rfl⟩ := h
  refine ⟨fun _ => rfl, fun _ => ⟨rfl, rfl, rfl⟩, ?_, ?_⟩
  · rintro pod ⟨⟩
  · rintro pod ⟨⟩

/-- A step that bills nothing. -/
theorem Inv.quiet (h : Inv w) (hinfo : w'.info = w.info) (hticks : w'.ticks = w.ticks)
    (hleased : w'.leased = w.leased) (hstart : w'.leasedAt = w.leasedAt) (hend : w'.finishedAt = w.finishedAt)
    (hnow : w.now ≤ w'.now) (hlive : w'.pc.live = w.pc.live) (hpc : w'.pc = .leasing → w.pc = .leasing) :
    Inv w' := by
  refine ⟨?_, ?_, ?_, ?_⟩
  · rw [hleased]
    exact fun hl => h.leasing (hpc hl)
  · rw [hleased, hticks, hlive, hend]
    exact h.unleased
  · rw [hleased, hlive]
    intro pod hpod hgpu hl
    obtain ⟨start, hb⟩ := h.billing pod hpod hgpu hl
    obtain ⟨last, hlast, hle, hledger⟩ := hb.ledger
    refine ⟨start, hstart.trans hb.leasedAt, hend.trans hb.finishedAt, ?_, ?_, ?_⟩
    · rw [hinfo]
      exact hb.count
    · rw [hinfo]
      exact hb.session
    · rw [hinfo, hticks]
      exact ⟨last, hlast, hle.trans hnow, hledger⟩
  · rw [hleased, hlive]
    intro pod hpod hgpu hl
    obtain ⟨hcount, hdisjoint, htotal, hfinal⟩ := h.billed pod hpod hgpu hl
    refine ⟨?_, ?_, ?_, ?_⟩
    · rw [hticks]
      exact hcount
    · rw [hticks]
      exact hdisjoint
    · rw [hstart, hend, Worker.billedMs, hticks]
      exact htotal
    · rw [hticks]
      exact hfinal

/-- A step from one place of the loop to another. -/
theorem Inv.move (h : Inv w) (hlive : w.pc.live = true) (hlive' : w'.pc.live = true) (hinfo : w'.info = w.info)
    (hticks : w'.ticks = w.ticks) (hleased : w'.leased = w.leased) (hstart : w'.leasedAt = w.leasedAt)
    (hend : w'.finishedAt = w.finishedAt) (hnow : w'.now = w.now) : Inv w' := by
  refine h.quiet hinfo hticks hleased hstart hend hnow.ge (hlive'.trans hlive.symm) fun hpc => ?_
  rw [hpc] at hlive'
  cases hlive'

theorem insertBillingTick_frame (w : Worker) :
    w.insertBillingTick.leased = w.leased ∧ w.insertBillingTick.leasedAt = w.leasedAt ∧
      w.insertBillingTick.finishedAt = w.finishedAt ∧ w.insertBillingTick.now = w.now ∧
      w.insertBillingTick.pc = w.pc := by
  unfold Worker.insertBillingTick
  split
  next =>
    split
    next => exact ⟨rfl, rfl, rfl, rfl, rfl⟩
    next => exact ⟨rfl, rfl, rfl, rfl, rfl⟩
  next => exact ⟨rfl, rfl, rfl, rfl, rfl⟩

/-- A minute is billed. -/
theorem Billing.tick {gpus : ℤ} {start : ℕ} (h : Billing w gpus start) : Billing w.insertBillingTick gpus start := by
  obtain ⟨sessionId, hsession⟩ := h.session
  obtain ⟨last, hlast, hle, hledger⟩ := h.ledger
  have hgpus : w.info.gpuCount ≠ 0 := h.count.1 ▸ h.count.2
  simp only [Worker.insertBillingTick, hsession, hlast, if_neg hgpus]
  refine ⟨h.leasedAt, h.finishedAt, h.count, ⟨sessionId, rfl⟩, w.now, rfl, le_refl _, ?_⟩
  exact hledger.append hle rfl rfl h.count.1 (by simp [Worker.tickOf])

/-- The worker is finished, and all is billed but the last 100 ms at most. -/
theorem Billing.finish {pod : FuncPod} {start : ℕ} (h : Billing w pod.gpuCount.toNat start) :
    w.finishWorker.Billed pod := by
  obtain ⟨sessionId, hsession⟩ := h.session
  obtain ⟨last, hlast, hle, hledger⟩ := h.ledger
  have hgpus : w.info.gpuCount ≠ 0 := h.count.1 ▸ h.count.2
  have hmod := Nat.div_add_mod (w.now - last) milli
  have hlt : (w.now - last) % milli < milli := Nat.mod_lt _ (by decide)
  by_cases hshort : (w.now - last) / milli < 100
  · -- the rest is too short for a tick
    have heq : w.insertFinalBillingTick = w := by
      simp only [Worker.insertFinalBillingTick, hsession, hlast, if_neg hgpus, if_pos hshort]
    simp only [Worker.finishWorker, heq]
    refine ⟨hledger.count, hledger.disjoint, ?_, hledger.final⟩
    intro start' finish hstart hfinish
    obtain rfl : start = start' := Option.some.inj (h.leasedAt.symm.trans hstart)
    obtain rfl := Option.some.inj hfinish
    have hupto := hledger.le
    have hfrom := hledger.ge
    have hms : milli * ((w.now - last) / milli) ≤ milli * 99 := Nat.mul_le_mul_left _ (by omega)
    unfold Worker.billedMs milli at *
    constructor
    · exact hupto.trans hle
    · dsimp only
      omega
  · have hticks : w.insertFinalBillingTick.ticks =
        w.ticks ++ [w.tickOf sessionId .final ((w.now - last) / milli)] := by
      simp only [Worker.insertFinalBillingTick, hsession, hlast, if_neg hgpus, if_neg hshort]
    have hstart' : w.insertFinalBillingTick.leasedAt = w.leasedAt := by
      simp only [Worker.insertFinalBillingTick, hsession, hlast, if_neg hgpus, if_neg hshort]
    simp only [Worker.finishWorker]
    refine ⟨?_, ?_, ?_, ?_⟩
    · rw [hticks]
      exact hledger.count_append h.count.1
    · rw [hticks]
      exact hledger.disjoint_append (le_since hle rfl rfl)
    · intro start' finish hstart hfinish
      obtain rfl : start = start' := Option.some.inj (h.leasedAt.symm.trans (hstart'.symm.trans hstart))
      obtain rfl := Option.some.inj hfinish
      have htotal := hledger.total_append (t := w.tickOf sessionId .final ((w.now - last) / milli)) hle rfl
      rw [Worker.billedMs, hticks]
      exact ⟨htotal.1, by omega⟩
    · rw [hticks]
      exact hledger.final_append _

/-- A minute passes in one of the loops. -/
theorem Inv.tick (h : Inv w) (hlive : w.pc.live = true) {pc : Pc} (hpc : pc.live = true) :
    Inv { w.insertBillingTick with pc := pc } := by
  obtain ⟨hleased, hstart, hend, hnow, -⟩ := insertBillingTick_frame w
  refine ⟨?_, ?_, ?_, ?_⟩
  · rintro rfl
    cases hpc
  · intro hnone
    have hdead := (h.unleased (hleased.symm.trans hnone)).2.1
    rw [hlive] at hdead
    cases hdead
  · intro pod hpod hgpu _
    obtain ⟨start, hb⟩ := h.billing pod (hleased.symm.trans hpod) hgpu hlive
    have ht := hb.tick
    exact ⟨start, ht.leasedAt, ht.finishedAt, ht.count, ht.session, ht.ledger⟩
  · intro pod _ _ hdead
    rw [show pc.live = false from hdead] at hpc
    cases hpc

theorem insertFinalBillingTick_leased (w : Worker) : w.insertFinalBillingTick.leased = w.leased := by
  unfold Worker.insertFinalBillingTick
  split
  next =>
    split
    next => rfl
    next =>
      split
      next => rfl
      next => rfl
  next => rfl

/-- The worker is finished. -/
theorem Inv.finish (h : Inv w) (hlive : w.pc.live = true) : Inv w.finishWorker := by
  have hleased : w.finishWorker.leased = w.leased := insertFinalBillingTick_leased w
  refine ⟨?_, ?_, ?_, ?_⟩
  · rintro ⟨⟩
  · intro hnone
    have hdead := (h.unleased (hleased.symm.trans hnone)).2.1
    rw [hlive] at hdead
    cases hdead
  · rintro pod _ _ ⟨⟩
  · intro pod hpod hgpu _
    obtain ⟨start, hb⟩ := h.billing pod (hleased.symm.trans hpod) hgpu hlive
    exact hb.finish

theorem asI32_of_lt {x : UInt64} (h : x.toNat < 2 ^ 31) : asI32 x = x.toNat := by
  unfold asI32
  exact Int.bmod_eq_of_le (by omega) (by omega)

/-- The lease starts, and its pod is in the cache. -/
theorem Inv.lease (h : Inv w) (hpc : w.pc = .leasing) {id : ℤ} {keepalive : Bool} {sessionId : String}
    {pod : FuncPod} (hok : w.Visible (.leaseAnswer id keepalive sessionId pod)) :
    Inv (w.leaseAnswer id keepalive sessionId pod) := by
  have hleased : (w.leaseAnswer id keepalive sessionId pod).leased = some pod := rfl
  obtain ⟨hticks, -, hend⟩ := h.unleased (h.leasing hpc)
  refine ⟨?_, ?_, ?_, ?_⟩
  · rintro ⟨⟩
  · rintro ⟨⟩
  · intro pod' hpod hgpu _
    obtain rfl : pod = pod' := Option.some.inj (hleased.symm.trans hpod)
    obtain ⟨hcached, hlt⟩ := hok hgpu
    obtain ⟨cached, hget, heq⟩ := Option.map_eq_some_iff.mp hcached
    have hne : (pod.gpuCount.toNat : ℤ) ≠ 0 := by
      have hpos : 0 < pod.gpuCount.toNat := hgpu
      omega
    have hcount : asI32 cached.gpuCount = pod.gpuCount.toNat := by
      rw [heq]
      exact asI32_of_lt hlt
    simp only [Worker.leaseAnswer, Worker.insertStartBillingTick, Worker.trackingInfo, hget, hcount, if_neg hne,
      hticks, List.nil_append]
    refine ⟨w.now, rfl, hend, ⟨rfl, hne⟩, ⟨sessionId, rfl⟩, w.now, rfl, le_refl _, ?_⟩
    refine (Ledger.nil _ w.now).append (le_refl _) rfl ?_ rfl ?_
    · simp [Worker.tickOf]
    · simp [Worker.tickOf]
  · rintro pod' _ _ ⟨⟩

/-- A request is done. -/
theorem Inv.handleReturn (h : Inv w) (hlive : w.pc.live = true) (fail : Bool) : Inv (w.handleReturn fail) := by
  unfold Worker.handleReturn
  dsimp only
  split
  next =>
    refine Inv.finish ?_ hlive
    exact h.quiet rfl rfl rfl rfl rfl (le_refl _) rfl fun hpc => hpc
  next =>
    refine h.quiet rfl rfl rfl rfl rfl (le_refl _) hlive.symm ?_
    rintro ⟨⟩

/-- **One input** keeps the invariant. -/
theorem Inv.next (h : Inv w) {c : Input} (hok : w.Visible c) (hnext : w.next c = some w') : Inv w' := by
  cases c with
  | podEvent name pod =>
    obtain rfl := Option.some.inj hnext
    exact h.quiet rfl rfl rfl rfl rfl (le_refl _) rfl fun hpc => hpc
  | clock d =>
    obtain rfl := Option.some.inj hnext
    exact h.quiet rfl rfl rfl rfl rfl (Nat.le_add_right _ _) rfl fun hpc => hpc
  | leaseFails =>
    simp only [Worker.next] at hnext
    split at hnext
    next hpc =>
      obtain rfl := Option.some.inj hnext
      refine h.quiet rfl rfl rfl rfl rfl (le_refl _) ?_ fun _ => hpc
      rw [hpc]
      rfl
    next => cases hnext
  | leaseAnswer id keepalive sessionId pod =>
    simp only [Worker.next] at hnext
    split at hnext
    next hpc =>
      obtain rfl := Option.some.inj hnext
      exact h.lease hpc hok
    next => cases hnext
  | loop scaleIn parallelLevel reqs =>
    simp only [Worker.next] at hnext
    split at hnext
    next hpc =>
      split at hnext
      next =>
        obtain rfl := Option.some.inj hnext
        exact h.move (by rw [hpc]; rfl) rfl rfl rfl rfl rfl rfl rfl
      next =>
        split at hnext
        next =>
          obtain rfl := Option.some.inj hnext
          exact h.move (by rw [hpc]; rfl) rfl rfl rfl rfl rfl rfl rfl
        next => cases hnext
      next => cases hnext
    next => cases hnext
  | connect ok =>
    simp only [Worker.next] at hnext
    split at hnext
    next caller reqs hpc =>
      have hlive : w.pc.live = true := by rw [hpc]; rfl
      split at hnext
      next =>
        obtain rfl := Option.some.inj hnext
        exact h.move hlive rfl rfl rfl rfl rfl rfl rfl
      next =>
        obtain rfl := Option.some.inj hnext
        refine Inv.finish ?_ hlive
        exact h.move hlive hlive rfl rfl rfl rfl rfl rfl
    next => cases hnext
  | served parallelLevel =>
    simp only [Worker.next] at hnext
    split at hnext
    next hpc =>
      have hlive : w.pc.live = true := by rw [hpc]; rfl
      split at hnext
      next =>
        obtain rfl := Option.some.inj hnext
        exact h.move hlive rfl rfl rfl rfl rfl rfl rfl
      next =>
        obtain rfl := Option.some.inj hnext
        exact h.move hlive rfl rfl rfl rfl rfl rfl rfl
    next => cases hnext
  | close =>
    simp only [Worker.next] at hnext
    split at hnext
    next hpc =>
      obtain rfl := Option.some.inj hnext
      exact h.finish (by rw [hpc]; rfl)
    next hpc =>
      obtain rfl := Option.some.inj hnext
      exact h.finish (by rw [hpc]; rfl)
    next => cases hnext
  | needed =>
    simp only [Worker.next] at hnext
    split at hnext
    next hpc =>
      obtain rfl := Option.some.inj hnext
      exact h.move (by rw [hpc]; rfl) rfl rfl rfl rfl rfl rfl rfl
    next hpc =>
      obtain rfl := Option.some.inj hnext
      exact h.move (by rw [hpc]; rfl) rfl rfl rfl rfl rfl rfl rfl
    next => cases hnext
  | idleTimeout =>
    simp only [Worker.next] at hnext
    split at hnext
    next hpc =>
      obtain rfl := Option.some.inj hnext
      exact h.finish (by rw [hpc]; rfl)
    next => cases hnext
  | billingTick =>
    simp only [Worker.next] at hnext
    split at hnext
    next hpc =>
      obtain rfl := Option.some.inj hnext
      have hlive : w.pc.live = true := by rw [hpc]; rfl
      have hsame : { w.insertBillingTick with pc := w.pc } = w.insertBillingTick := by
        rw [← (insertBillingTick_frame w).2.2.2.2]
      exact hsame ▸ h.tick hlive hlive
    next hpc =>
      obtain rfl := Option.some.inj hnext
      exact h.tick (by rw [hpc]; rfl) rfl
    next => cases hnext
  | requestDone fail =>
    simp only [Worker.next] at hnext
    split at hnext
    next hpc =>
      split at hnext
      next =>
        obtain rfl := Option.some.inj hnext
        exact h.handleReturn (by rw [hpc]; rfl) fail
      next => cases hnext
    next hpc =>
      split at hnext
      next =>
        obtain rfl := Option.some.inj hnext
        exact h.handleReturn (by rw [hpc]; rfl) fail
      next => cases hnext
    next => cases hnext
  | drained =>
    simp only [Worker.next] at hnext
    split at hnext
    next hpc =>
      obtain rfl := Option.some.inj hnext
      exact h.move (by rw [hpc]; rfl) rfl rfl rfl rfl rfl rfl rfl
    next => cases hnext

theorem Inv.leaseBilled (h : Inv w) : w.LeaseBilled := by
  intro pod hpod hgpu
  rcases hlive : w.pc.live with _ | _
  · exact h.billed pod hpod hgpu hlive
  · obtain ⟨start, hb⟩ := h.billing pod hpod hgpu hlive
    obtain ⟨last, -, -, hledger⟩ := hb.ledger
    refine ⟨hledger.count, hledger.disjoint, ?_, hledger.final⟩
    intro _ _ _ hfinish
    rw [hb.finishedAt] at hfinish
    cases hfinish

/-- **Leased GPU time is billed** in every run in which the pod is in the cache when its
lease is answered: whatever the worker does then, its ticks are for the GPUs of the pod,
bill no time twice, and amount to the time of the lease. -/
theorem leased_time_billed (h : Reach Worker.next Worker.Fresh Worker.Visible w) : w.LeaseBilled :=
  (h.invariant (fun _ => Inv.fresh) fun _ _ _ hinv hok hnext => hinv.next hok hnext).leaseBilled

end Invariant

/-! ## Two runs -/

instance (w : Worker) : (c : Input) → Decidable (w.Visible c)
  | .leaseAnswer id _ _ pod =>
    decidable_of_iff (0 < pod.gpuCount →
      (w.pods (w.podName id)).map FuncPod.gpuCount = some pod.gpuCount ∧ pod.gpuCount.toNat < 2 ^ 31) Iff.rfl
  | .podEvent _ _ => .isTrue trivial
  | .clock _ => .isTrue trivial
  | .leaseFails => .isTrue trivial
  | .loop _ _ _ => .isTrue trivial
  | .connect _ => .isTrue trivial
  | .served _ => .isTrue trivial
  | .close => .isTrue trivial
  | .needed => .isTrue trivial
  | .idleTimeout => .isTrue trivial
  | .billingTick => .isTrue trivial
  | .requestDone _ => .isTrue trivial
  | .drained => .isTrue trivial

/-- A worker of `acme`. -/
def acmeWorker : Worker where
  ident :=
    { tenant := "acme", nameSpace := "prod", funcname := "llama", physicalTenant := "acme"
      physicalNamespace := "prod", physicalFuncname := "llama", fprevision := 1, gatewayId := 1 }

/-- A pod with two GPUs. -/
def twoGpus : FuncPod :=
  { nodename := "node1", gpuType := "H100", gpuCount := 2, vRam := 80000, totalVRam := 171798691840 }

/-- The worker idles for a minute and a half, and is finished. -/
def idleRun : List Input :=
  [.loop false 1 [], .served 1, .loop false 1 [], .clock (60000 * milli), .billingTick, .clock (30050 * milli),
   .idleTimeout]

/-- The pod is in the cache before the lease is answered. -/
def podFirst : List Input :=
  .podEvent "acme/prod/llama/1/7" (some twoGpus) :: .leaseAnswer 7 false "s1" twoGpus :: idleRun

theorem leased_time_billed_podFirst : ∃ w : Worker, w.LeaseBilled ∧ w.leased = some twoGpus ∧
    w.billedMs = 90050 ∧ w.finishedAt = some (90050 * milli) := by
  have hrun : (exec Worker.next Worker.Visible acmeWorker podFirst).map (fun w =>
      (w.leased, w.billedMs, w.finishedAt)) = some (some twoGpus, 90050, some (90050 * milli)) := by
    decide +kernel
  obtain ⟨w, hw, heq⟩ := Option.map_eq_some_iff.mp hrun
  obtain ⟨hleased, heq⟩ := Prod.mk.inj heq
  obtain ⟨hms, hfinish⟩ := Prod.mk.inj heq
  have hreach : Reach Worker.next Worker.Fresh Worker.Visible w :=
    .of_exec Worker.next Worker.Visible (.init ⟨_, _, _, rfl⟩) hw
  exact ⟨w, leased_time_billed hreach, hleased, hms, hfinish⟩

/-- The lease is answered before the pod is in the cache. -/
def leaseFirst : List Input :=
  .leaseAnswer 7 false "s1" twoGpus :: .podEvent "acme/prod/llama/1/7" (some twoGpus) :: idleRun

/-- Nothing is billed for a pod that is seen too late. -/
theorem late_pod_not_billed :
    ¬ ∀ w, Reach Worker.next Worker.Fresh (fun _ _ => True) w → w.LeaseBilled := by
  intro h
  have hrun : (exec Worker.next (fun _ _ => True) acmeWorker leaseFirst).map (fun w =>
      (w.leased, w.billedMs, w.ticks.length, w.leasedAt, w.finishedAt)) =
      some (some twoGpus, 0, 0, some 0, some (90050 * milli)) := by
    decide +kernel
  obtain ⟨w, hw, heq⟩ := Option.map_eq_some_iff.mp hrun
  obtain ⟨hleased, heq⟩ := Prod.mk.inj heq
  obtain ⟨hms, heq⟩ := Prod.mk.inj heq
  obtain ⟨hlength, heq⟩ := Prod.mk.inj heq
  obtain ⟨hstart, hfinish⟩ := Prod.mk.inj heq
  have hreach : Reach Worker.next Worker.Fresh (fun _ _ => True) w :=
    .of_exec Worker.next _ (.init ⟨_, _, _, rfl⟩) hw
  have htotal := ((h w hreach) twoGpus hleased (by decide)).total 0 (90050 * milli) hstart hfinish
  rw [hms, hlength] at htotal
  exact absurd htotal.2 (by decide)

end Inferx.Gateway.FuncWorker
