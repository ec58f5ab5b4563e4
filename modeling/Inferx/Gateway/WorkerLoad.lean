import Mathlib.Tactic.Common
import Inferx.Lib.Runs

/-!
# How many requests a worker has

A worker takes as many requests from the queue of its agent as its parallel level
leaves room for, hands each a client, and gets the client's sender back through
`finishQueue` when the client is dropped. `ongoingReqCnt` counts what it has taken and
not got back.

The parallel level is the agent's and follows the policy, at any time; the capacity of
`finishQueue` is twice what the level was when the worker was made, and a client that
finds it full drops its sender. So the count is right as long as the level stays
between what the worker has taken and that capacity.
-/

namespace Inferx.Gateway.WorkerLoad

/-- `FuncWorkerState`, after the lease. -/
inductive FuncWorkerState where
  | idle | processing
  deriving DecidableEq

/-- Where `Process` is. -/
inductive Pc where
  /-- at the head of its loop -/
  | head
  /-- idle, waiting for a request -/
  | idling
  /-- about to receive up to `cnt` requests -/
  | take (cnt : ℕ)
  /-- `left` requests of the batch have no client yet -/
  | handOut (left : ℕ)
  /-- after the batch -/
  | batched
  /-- waiting for a request or a sender -/
  | waitBoth
  /-- waiting for a sender -/
  | waitReturn
  /-- after a sender, looking for more -/
  | drain
  | finished
  /-- a subtraction has underflowed -/
  | panicked
  deriving DecidableEq

/-- What the worker is about to receive. -/
def Pc.taking : Pc → ℕ
  | .take cnt => cnt
  | _ => 0

/-- The requests of the batch without a client. -/
def Pc.handing : Pc → ℕ
  | .handOut left => left
  | _ => 0

/-- The worker, the clients it has handed out, and the level of its agent. -/
structure FuncWorker where
  /-- the agent's -/
  parallelLeve : ℕ
  /-- of `finishQueue` -/
  capacity : ℕ
  /-- requests in the agent's queue -/
  queued : ℕ := 0
  ongoingReqCnt : ℕ := 0
  failCount : ℕ := 0
  /-- handed out and not dropped -/
  clients : ℕ := 0
  /-- the senders that wait there, oldest first: has its request failed? -/
  finishQueue : List Bool := []
  state : FuncWorkerState := .processing
  pc : Pc := .head
  deriving DecidableEq

/-- What can happen next. -/
inductive Input where
  | updatePolicy (parallel : ℕ)
  | enqReq
  /-- other workers take requests, or they time out -/
  | dequeued (cnt : ℕ)
  | dropClient (fail : Bool)
  /-- the worker goes on to its next wait -/
  | run
  | connect (ok : Bool)
  /-- `WaitReq` returns -/
  | request
  | recv
  /-- a billing tick -/
  | tick
  /-- `NeedLastWorker` -/
  | needed
  | idleTimeout
  | close
  deriving DecidableEq

/-- `fetch_sub(1)`. -/
def fetchSub (n : ℕ) : ℕ := if n = 0 then 18446744073709551615 else n - 1

namespace FuncWorker

variable (s : FuncWorker)

/-- `HandleReturn`. -/
def handleReturn (fail : Bool) : FuncWorker :=
  let s' := { s with ongoingReqCnt := fetchSub s.ongoingReqCnt }
  if fail && s.failCount == 3 then { s' with failCount := s.failCount + 1, pc := .finished }
  else
    { s' with
      failCount := if fail then s.failCount + 1 else 0
      state := if s.ongoingReqCnt = 1 then .idle else s.state
      pc := .drain }

/-- The head of the loop. -/
def head : FuncWorker :=
  match s.state with
  | .idle => { s with pc := .idling }
  | .processing =>
    if s.parallelLeve < s.ongoingReqCnt then { s with pc := .panicked }
    else if s.parallelLeve - s.ongoingReqCnt > 0 then
      { s with pc := .take (s.parallelLeve - s.ongoingReqCnt) }
    else { s with pc := .batched }

/-- `TryRecvBatch(cnt)`. -/
def tryRecvBatch (cnt : ℕ) : FuncWorker :=
  { s with
    queued := s.queued - cnt
    ongoingReqCnt := s.ongoingReqCnt + min cnt s.queued
    pc := if min cnt s.queued = 0 then .batched else .handOut (min cnt s.queued) }

/-- After the batch. -/
def batched : FuncWorker :=
  if s.ongoingReqCnt = 0 then { s with state := .idle, pc := .head }
  else if s.parallelLeve > s.ongoingReqCnt then { s with pc := .waitBoth }
  else { s with pc := .waitReturn }

/-- `QHttpCallClient::drop`: `try_send`. -/
def dropClient (fail : Bool) : FuncWorker :=
  { s with
    clients := s.clients - 1
    finishQueue :=
      if s.finishQueue.length < s.capacity then s.finishQueue ++ [fail] else s.finishQueue }

/-- The worker's own steps. -/
def work (i : Input) : Option FuncWorker :=
  match s.pc, i with
  | .head, .run => some s.head
  | .take cnt, .run => some (s.tryRecvBatch cnt)
  | .handOut (left + 1), .connect true =>
    some { s with
      clients := s.clients + 1
      pc := if left = 0 then .batched else .handOut left }
  | .handOut _, .connect false => some { s with pc := .finished }
  | .batched, .run => some s.batched
  | .idling, .request | .idling, .needed => some { s with state := .processing, pc := .head }
  | .idling, .tick => some s
  | .idling, .idleTimeout | .idling, .close => some { s with pc := .finished }
  | .waitBoth, .request => some { s with pc := .head }
  | .waitBoth, .recv | .waitReturn, .recv =>
    match s.finishQueue with
    | [] => none
    | fail :: rest => some ({ s with finishQueue := rest }.handleReturn fail)
  | .waitBoth, .tick | .waitReturn, .tick => some { s with pc := .head }
  | .waitBoth, .close | .waitReturn, .close => some { s with pc := .finished }
  | .drain, .run =>
    match s.finishQueue with
    | [] => some { s with pc := .head }
    | fail :: rest => some ({ s with finishQueue := rest }.handleReturn fail)
  | _, _ => none

def next (i : Input) : Option FuncWorker :=
  if s.pc = .finished ∨ s.pc = .panicked then none
  else
    match i with
    | .updatePolicy parallel => some { s with parallelLeve := parallel }
    | .enqReq => some { s with queued := s.queued + 1 }
    | .dequeued cnt => some { s with queued := s.queued - cnt }
    | .dropClient fail => if s.clients = 0 then none else some (s.dropClient fail)
    | i => s.work i

/-- A worker whose lease has come in. -/
def Leased : Prop := ∃ parallel > 0, s = { parallelLeve := parallel, capacity := parallel * 2 }

/-- **The count is right**, until the worker finishes. -/
structure Accounted : Prop where
  /-- no subtraction has underflowed -/
  subtracted : s.pc ≠ .panicked
  /-- what has been taken is out, or back, or about to go out -/
  counted : s.pc ≠ .finished → s.ongoingReqCnt = s.clients + s.finishQueue.length + s.pc.handing
  /-- no more has been taken than the level allows -/
  level : s.pc ≠ .finished → s.ongoingReqCnt ≤ s.parallelLeve

/-- A new level is not below what the worker has taken and is about to take, and not above the
capacity of its channel. -/
def LevelFits : Input → Prop
  | .updatePolicy parallel => s.ongoingReqCnt + s.pc.taking ≤ parallel ∧ parallel ≤ s.capacity
  | _ => True

instance : ∀ i, Decidable (s.LevelFits i)
  | .updatePolicy _ => inferInstanceAs (Decidable (_ ∧ _))
  | .enqReq | .dequeued _ | .dropClient _ | .run | .connect _ | .request | .recv | .tick | .needed
  | .idleTimeout | .close => .isTrue trivial

/-! ## The count -/

/-- `Accounted`, with what the next steps need. -/
structure Balanced : Prop where
  subtracted : s.pc ≠ .panicked
  counted : s.pc ≠ .finished → s.ongoingReqCnt = s.clients + s.finishQueue.length + s.pc.handing
  level : s.pc ≠ .finished → s.ongoingReqCnt + s.pc.taking ≤ s.parallelLeve
  capacity : s.parallelLeve ≤ s.capacity

variable {s} {s' : FuncWorker}

theorem Balanced.accounted (h : s.Balanced) : s.Accounted :=
  ⟨h.subtracted, h.counted, fun hp => Nat.le_trans (Nat.le_add_right _ _) (h.level hp)⟩

/-- To a place where nothing is being taken. -/
theorem Balanced.goto (h : s.Balanced) (hrun : s.pc ≠ .finished) (hhanding : s.pc.handing = 0)
    {state : FuncWorkerState} {pc : Pc} (hpc : pc ≠ .panicked) (htaking' : pc.taking = 0)
    (hhanding' : pc.handing = 0) : Balanced { s with state, pc } where
  subtracted := hpc
  counted _ := by
    show s.ongoingReqCnt = s.clients + s.finishQueue.length + pc.handing
    rw [hhanding', ← hhanding]
    exact h.counted hrun
  level _ := by
    show s.ongoingReqCnt + pc.taking ≤ s.parallelLeve
    rw [htaking']
    exact Nat.le_trans (Nat.le_add_right _ _) (h.level hrun)
  capacity := h.capacity

/-- Whatever has happened, the worker may finish. -/
theorem Balanced.finish (h : s.parallelLeve ≤ s.capacity) (hpc : s.pc = .finished) : s.Balanced :=
  ⟨hpc ▸ nofun, fun hf => absurd hpc hf, fun hf => absurd hpc hf, h⟩

/-- A sender comes back. -/
theorem Balanced.handleReturn {fail : Bool} {rest : List Bool} (h : s.Balanced)
    (hq : s.finishQueue = fail :: rest) (hrun : s.pc ≠ .finished) (hhanding : s.pc.handing = 0) :
    ({ s with finishQueue := rest }.handleReturn fail).Balanced := by
  have hcount := h.counted hrun
  have hlevel := h.level hrun
  rw [hq, List.length_cons, hhanding] at hcount
  have hpred : fetchSub s.ongoingReqCnt = s.clients + rest.length := by
    unfold fetchSub
    rw [if_neg (by omega)]
    omega
  unfold FuncWorker.handleReturn
  dsimp only
  split
  next => exact .finish h.capacity rfl
  next =>
    refine ⟨nofun, fun _ => hpred, fun _ => ?_, h.capacity⟩
    show fetchSub s.ongoingReqCnt + 0 ≤ s.parallelLeve
    omega

theorem Balanced.head (h : s.Balanced) (hpc : s.pc = .head) : s.head.Balanced := by
  have hrun : s.pc ≠ .finished := hpc ▸ nofun
  have hhanding : s.pc.handing = 0 := hpc ▸ rfl
  have hlevel := h.level hrun
  unfold FuncWorker.head
  split
  next => exact h.goto hrun hhanding nofun rfl rfl
  next =>
    rw [if_neg (by omega)]
    split
    next =>
      -- the free slots fill the level up
      refine ⟨nofun, fun _ => (h.counted hrun).trans (by rw [hhanding]; rfl), fun _ => ?_, h.capacity⟩
      show s.ongoingReqCnt + (s.parallelLeve - s.ongoingReqCnt) ≤ s.parallelLeve
      omega
    next => exact h.goto hrun hhanding nofun rfl rfl

theorem Balanced.tryRecvBatch {cnt : ℕ} (h : s.Balanced) (hpc : s.pc = .take cnt) :
    (s.tryRecvBatch cnt).Balanced := by
  have hrun : s.pc ≠ .finished := hpc ▸ nofun
  have hcount := h.counted hrun
  have hlevel := h.level hrun
  rw [hpc] at hcount hlevel
  replace hcount : s.ongoingReqCnt = s.clients + s.finishQueue.length + 0 := hcount
  replace hlevel : s.ongoingReqCnt + cnt ≤ s.parallelLeve := hlevel
  have hmin : min cnt s.queued ≤ cnt := Nat.min_le_left _ _
  unfold FuncWorker.tryRecvBatch
  split
  next h0 =>
    rw [h0]
    exact ⟨nofun, fun _ => hcount, fun _ => Nat.le_trans (Nat.le_add_right _ _) hlevel, h.capacity⟩
  next =>
    refine ⟨nofun, fun _ => ?_, fun _ => ?_, h.capacity⟩
    · show s.ongoingReqCnt + min cnt s.queued = s.clients + s.finishQueue.length + min cnt s.queued
      omega
    · show s.ongoingReqCnt + min cnt s.queued + 0 ≤ s.parallelLeve
      omega

/-- A request of the batch gets its client. -/
theorem Balanced.connect {left : ℕ} (h : s.Balanced) (hpc : s.pc = .handOut (left + 1)) :
    Balanced { s with
      clients := s.clients + 1
      pc := if left = 0 then .batched else .handOut left } := by
  have hrun : s.pc ≠ .finished := hpc ▸ nofun
  have hcount := h.counted hrun
  have hlevel := h.level hrun
  rw [hpc] at hcount hlevel
  replace hcount : s.ongoingReqCnt = s.clients + s.finishQueue.length + (left + 1) := hcount
  split
  next h0 =>
    refine ⟨nofun, fun _ => ?_, fun _ => hlevel, h.capacity⟩
    show s.ongoingReqCnt = s.clients + 1 + s.finishQueue.length + 0
    omega
  next =>
    refine ⟨nofun, fun _ => ?_, fun _ => hlevel, h.capacity⟩
    show s.ongoingReqCnt = s.clients + 1 + s.finishQueue.length + left
    omega

theorem Balanced.batched (h : s.Balanced) (hpc : s.pc = .batched) : s.batched.Balanced := by
  have hrun : s.pc ≠ .finished := hpc ▸ nofun
  have hhanding : s.pc.handing = 0 := hpc ▸ rfl
  unfold FuncWorker.batched
  split
  next => exact h.goto hrun hhanding nofun rfl rfl
  next => split <;> exact h.goto hrun hhanding nofun rfl rfl

/-- A client always finds room for its sender: the channel holds what the level allows. -/
theorem Balanced.dropClient {fail : Bool} (h : s.Balanced) (hrun : s.pc ≠ .finished)
    (hclients : s.clients ≠ 0) : (s.dropClient fail).Balanced := by
  have hcount := h.counted hrun
  have hlevel := h.level hrun
  have hcap := h.capacity
  unfold FuncWorker.dropClient
  rw [if_pos (by omega)]
  refine ⟨h.subtracted, fun _ => ?_, fun _ => hlevel, hcap⟩
  show s.ongoingReqCnt = s.clients - 1 + (s.finishQueue ++ [fail]).length + s.pc.handing
  rw [List.length_append, List.length_singleton]
  omega

theorem Balanced.work {i : Input} (h : s.Balanced) (hrun : s.pc ≠ .finished)
    (hnext : s.work i = some s') : s'.Balanced := by
  -- a wait, from which the worker goes on to some other place
  have hgoto : s.pc.handing = 0 → ∀ (state : FuncWorkerState) (pc : Pc), pc ≠ .panicked →
      pc.taking = 0 → pc.handing = 0 → Balanced { s with state, pc } :=
    fun h0 _ _ hpc htaking hhanding => h.goto hrun h0 hpc htaking hhanding
  have hreturn : s.pc.handing = 0 → ∀ {pc'}, (match s.finishQueue with
      | [] => pc'
      | fail :: rest => some ({ s with finishQueue := rest }.handleReturn fail)) = some s' →
      (pc' = some s' → s'.Balanced) → s'.Balanced := by
    intro h0 pc' hmatch hempty
    rcases hq : s.finishQueue with _ | ⟨fail, rest⟩
    · rw [hq] at hmatch
      exact hempty hmatch
    · rw [hq] at hmatch
      exact Option.some.inj hmatch ▸ h.handleReturn hq hrun h0
  unfold FuncWorker.work at hnext
  split at hnext
  next hpc => exact Option.some.inj hnext ▸ h.head hpc
  next hpc => exact Option.some.inj hnext ▸ h.tryRecvBatch hpc
  next hpc => exact Option.some.inj hnext ▸ h.connect hpc
  next => exact Option.some.inj hnext ▸ .finish h.capacity rfl
  next hpc => exact Option.some.inj hnext ▸ h.batched hpc
  next hpc => exact Option.some.inj hnext ▸ hgoto (hpc ▸ rfl) _ _ nofun rfl rfl
  next hpc => exact Option.some.inj hnext ▸ hgoto (hpc ▸ rfl) _ _ nofun rfl rfl
  next => exact Option.some.inj hnext ▸ h
  next => exact Option.some.inj hnext ▸ .finish h.capacity rfl
  next => exact Option.some.inj hnext ▸ .finish h.capacity rfl
  next hpc => exact Option.some.inj hnext ▸ hgoto (hpc ▸ rfl) _ _ nofun rfl rfl
  next hpc => exact hreturn (hpc ▸ rfl) hnext nofun
  next hpc => exact hreturn (hpc ▸ rfl) hnext nofun
  next hpc => exact Option.some.inj hnext ▸ hgoto (hpc ▸ rfl) _ _ nofun rfl rfl
  next hpc => exact Option.some.inj hnext ▸ hgoto (hpc ▸ rfl) _ _ nofun rfl rfl
  next => exact Option.some.inj hnext ▸ .finish h.capacity rfl
  next => exact Option.some.inj hnext ▸ .finish h.capacity rfl
  next hpc =>
    refine hreturn (hpc ▸ rfl) hnext fun hempty => ?_
    exact Option.some.inj hempty ▸ hgoto (hpc ▸ rfl) _ _ nofun rfl rfl
  next => cases hnext

/-- **The step.** -/
theorem Balanced.next {i : Input} (h : s.Balanced) (hok : s.LevelFits i) (hnext : s.next i = some s') :
    s'.Balanced := by
  unfold FuncWorker.next at hnext
  split at hnext
  next => cases hnext
  next hgoing =>
    have hrun : s.pc ≠ .finished := fun hf => hgoing (.inl hf)
    split at hnext
    next parallel =>
      obtain rfl := Option.some.inj hnext
      exact ⟨h.subtracted, h.counted, fun _ => hok.1, hok.2⟩
    next =>
      obtain rfl := Option.some.inj hnext
      exact ⟨h.subtracted, h.counted, h.level, h.capacity⟩
    next =>
      obtain rfl := Option.some.inj hnext
      exact ⟨h.subtracted, h.counted, h.level, h.capacity⟩
    next =>
      split at hnext
      next => cases hnext
      next hclients => exact Option.some.inj hnext ▸ h.dropClient hrun hclients
    next => exact h.work hrun hnext

/-- **The count is right** in a run in which the level stays between what the worker has taken and
the capacity of its channel. -/
theorem accounted_of_levelFits (h : Reach next Leased LevelFits s) : s.Accounted := by
  refine Balanced.accounted (h.invariant (I := Balanced) ?_ fun _ _ _ hs hok hnext => hs.next hok hnext)
  rintro _ ⟨parallel, -, rfl⟩
  refine ⟨nofun, fun _ => rfl, fun _ => Nat.zero_le _, ?_⟩
  show parallel ≤ parallel * 2
  omega

/-! ### Runs -/

/-- A worker of level two takes two requests and waits for their senders. -/
def twoTaken : List Input :=
  [.enqReq, .enqReq, .run, .run, .connect true, .connect true, .run]

/-- The level is lowered after one of them is back. -/
theorem accounted_of_lowered : ∃ s, exec next LevelFits { parallelLeve := 2, capacity := 2 * 2 }
      (twoTaken ++ [.dropClient false, .recv, .updatePolicy 1, .run, .run]) = some s ∧
      s.Accounted := by
  have hrun : ((exec next LevelFits { parallelLeve := 2, capacity := 2 * 2 }
      (twoTaken ++ [.dropClient false, .recv, .updatePolicy 1, .run, .run])).any fun _ => true)
      = true := by
    decide +kernel
  obtain ⟨s, hs, -⟩ := (Option.any_eq_true _ _).mp hrun
  exact ⟨s, hs, accounted_of_levelFits (Reach.of_exec _ _ (.init ⟨2, by decide, rfl⟩) hs)⟩

/-- The level is lowered with both out. -/
theorem level_underflows : ¬ ∀ s, Reach next Leased (fun _ _ => True) s → s.Accounted := by
  intro h
  have hrun : ((exec next (fun _ _ => True) { parallelLeve := 2, capacity := 2 * 2 }
      (twoTaken ++ [.updatePolicy 1, .tick, .run])).any fun s => decide (s.pc = .panicked))
      = true := by
    decide +kernel
  obtain ⟨s, hs, hpc⟩ := (Option.any_eq_true _ _).mp hrun
  exact (h s (Reach.of_exec _ _ (.init ⟨2, by decide, rfl⟩) hs)).subtracted (of_decide_eq_true hpc)

end FuncWorker

end Inferx.Gateway.WorkerLoad
