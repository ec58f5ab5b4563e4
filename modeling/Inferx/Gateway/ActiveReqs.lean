import Mathlib.Algebra.BigOperators.Group.List.Lemmas
import Mathlib.Algebra.Ring.Nat
import Inferx.Lib.Parties
import Inferx.Lib.Runs
import Inferx.Gateway.Expiry

/-!
# The requests of an agent

`activeReqCnt` counts the requests that wait in the queue of an agent and those that its
workers have taken. The agent raises it after it has put a request into the queue, and lowers
it after it has answered expired requests; a worker lowers it when a request comes back, and
by all it has when it finishes. The agent and its workers run at the same time, and each step
here is one access to what they share.

Between the two steps of the agent a worker may have taken the request and given it back:
the counter is then lowered before it was raised.
-/

namespace Inferx.Gateway.ActiveReqs

open Expiry

/-- `2⁶⁴`. -/
def usize : ℕ := 18446744073709551616

/-- `fetch_sub`. -/
def fetchSub (n k : ℕ) : ℕ := if k ≤ n then n - k else n + usize - k

/-- `fetch_add`. -/
def fetchAdd (n k : ℕ) : ℕ := if n + k < usize then n + k else n + k - usize

/-! ## Workers -/

/-- Where a worker is between two steps. -/
inductive WorkerPc where
  /-- it waits for its lease -/
  | leasing
  /-- at a wait of its loop, idle or not -/
  | loop
  /-- `TryRecvBatch` has returned `cnt` requests -/
  | took (cnt : ℕ)
  /-- `left` requests of the batch have no client yet -/
  | handOut (left : ℕ)
  /-- `HandleReturn` has lowered `activeReqCnt` -/
  | returning (fail : Bool)
  /-- `NeedLastWorker` has read `TotalSlot` -/
  | needing (totalSlotCnt : ℕ)
  /-- `FinishWorker` has lowered `totalSlot` -/
  | finishing
  | finished
  deriving DecidableEq

/-- `FuncWorker`. -/
structure FuncWorker where
  /-- the level when it was made -/
  parallelLevel : ℕ
  ongoingReqCnt : ℕ := 0
  failCount : ℕ := 0
  /-- clients that were handed out and have not come back -/
  clients : ℕ := 0
  /-- is it in the map of the agent? -/
  listed : Bool := false
  pc : WorkerPc := .leasing
  deriving DecidableEq

namespace FuncWorker

/-- The requests of a worker that `activeReqCnt` is to count. -/
def held (w : FuncWorker) : ℕ :=
  match w.pc with
  | .took cnt => w.ongoingReqCnt + cnt
  -- the one that comes back is not counted any more
  | .returning _ => w.ongoingReqCnt - 1
  | .finished => 0
  | _ => w.ongoingReqCnt

/-- What `totalSlot` has of a worker. -/
def slots (w : FuncWorker) : ℕ :=
  match w.pc with
  | .leasing | .finishing | .finished => 0
  | _ => w.parallelLevel

/-- The counter of a worker is up to date. -/
def Settled (w : FuncWorker) : Prop :=
  match w.pc with
  | .took _ | .returning _ => False
  | _ => True

/-- A worker has clients out for requests it has taken. -/
def Ok (w : FuncWorker) : Prop :=
  match w.pc with
  | .leasing => w.ongoingReqCnt = 0 ∧ w.clients = 0
  | .handOut left => w.clients + left ≤ w.ongoingReqCnt
  | .returning _ => w.clients + 1 ≤ w.ongoingReqCnt
  | _ => w.clients ≤ w.ongoingReqCnt

end FuncWorker

/-! ## The agent -/

/-- Where the agent is between two steps. -/
inductive AgentPc where
  /-- at the head of its loop, or at its wait -/
  | loop
  /-- `CleanTimeout` has answered `cnt` requests -/
  | cleaned (cnt : ℕ)
  /-- `Send` has put a request into the queue -/
  | sent
  /-- a worker was made -/
  | made
  deriving DecidableEq

/-- `FuncAgent`, with its workers in the order of their ids. -/
structure FuncAgent where
  parallelLeve : ℕ
  queue : ClientReqQueue
  activeReqCnt : ℕ := 0
  totalSlot : ℕ := 0
  workers : List FuncWorker := []
  pc : AgentPc := .loop
  /-- has a counter or a difference wrapped around? -/
  wrapped : Bool := false
  deriving DecidableEq

/-- One step of the agent, or of its worker `i`. -/
inductive Input where
  | cleanTimeout (now : ℕ)
  /-- `activeReqCnt.fetch_sub(timeoutReqCnt)` -/
  | subTimeouts
  /-- `reqQueueRx.recv`, and `Send` -/
  | recv (req : FuncClientReq)
  /-- `activeReqCnt.fetch_add(1)` -/
  | count
  | updatePolicy (parallel queueLen : ℕ)
  /-- `FuncWorker::New` -/
  | newWorker
  | addWorker
  | removeWorker (i : ℕ)
  /-- `LeaseWorker` returns -/
  | lease (i : ℕ) (ok : Bool)
  | tryRecvBatch (i : ℕ)
  /-- `ongoingReqCnt.fetch_add(reqCnt)` -/
  | book (i : ℕ)
  /-- `NewHttpCallClient`, for the next request of the batch -/
  | connect (i : ℕ) (ok : Bool)
  /-- the batch is done -/
  | batched (i : ℕ)
  /-- a sender comes back: `HandleReturn` lowers `activeReqCnt` -/
  | handleReturn (i : ℕ) (fail : Bool)
  /-- and goes on -/
  | returned (i : ℕ)
  /-- `NeedLastWorker` reads `TotalSlot` -/
  | totalSlot (i : ℕ)
  /-- and takes `ParallelLevel` from it -/
  | needLastWorker (i : ℕ)
  /-- the worker is closed or has been idle for too long: `FinishWorker` lowers `totalSlot` -/
  | finishWorker (i : ℕ)
  /-- and `activeReqCnt` -/
  | finish (i : ℕ)
  deriving DecidableEq

/-- Who moves, and what. -/
inductive Kind where
  /-- the agent -/
  | agent
  /-- a worker, which keeps what it holds -/
  | keeps
  /-- a worker, with the counters -/
  | counts
  deriving DecidableEq

def Input.kind : Input → Kind
  | .cleanTimeout _ | .subTimeouts | .recv _ | .count | .updatePolicy _ _ | .newWorker
  | .addWorker => .agent
  | .removeWorker _ | .lease _ false | .book _ | .connect _ _ | .batched _ | .returned _
  | .totalSlot _ | .finishWorker _ => .keeps
  | .lease _ true | .tryRecvBatch _ | .handleReturn _ _ | .needLastWorker _ | .finish _ => .counts

namespace FuncAgent

variable (s : FuncAgent)

/-- `activeReqCnt.fetch_sub`. -/
def subActive (k : ℕ) : FuncAgent :=
  { s with
    activeReqCnt := fetchSub s.activeReqCnt k
    wrapped := s.wrapped || decide (s.activeReqCnt < k) }

/-- `totalSlot.fetch_sub`. -/
def subSlots (k : ℕ) : FuncAgent :=
  { s with
    totalSlot := fetchSub s.totalSlot k
    wrapped := s.wrapped || decide (s.totalSlot < k) }

def setWorker (i : ℕ) (w : FuncWorker) : FuncAgent := { s with workers := s.workers.set i w }

/-- A step of worker `i`. -/
def onWorker (i : ℕ) (f : FuncWorker → Option FuncAgent) : Option FuncAgent := s.workers[i]?.bind f

/-- The head of `FinishWorker`. -/
def startFinish (i : ℕ) (w : FuncWorker) : FuncAgent :=
  (s.subSlots w.parallelLevel).setWorker i { w with pc := .finishing }

/-- `TotalSlot`. -/
def totalSlotCnt : ℕ := ((s.workers.filter FuncWorker.listed).length * s.parallelLeve) % usize

/-- One step. Which of the listed workers scales in does not matter here. -/
def next : Input → Option FuncAgent
  | .cleanTimeout now =>
    if s.pc = .loop then
      let (cnt, queue) := s.queue.cleanTimeout now
      some { s with queue, pc := .cleaned cnt }
    else none
  | .subTimeouts =>
    match s.pc with
    | .cleaned cnt => some { s.subActive cnt with pc := .loop }
    | _ => none
  | .recv req =>
    if s.pc = .loop then
      some { s with
        queue := s.queue.send req
        pc := if s.queue.queueLen ≤ s.queue.reqQueue.length then .loop else .sent }
    else none
  | .count =>
    if s.pc = .sent then
      some { s with
        activeReqCnt := fetchAdd s.activeReqCnt 1
        wrapped := s.wrapped || decide (usize ≤ s.activeReqCnt + 1)
        pc := .loop }
    else none
  | .updatePolicy parallel queueLen =>
    if s.pc = .loop then
      some { s with parallelLeve := parallel, queue := { s.queue with queueLen } }
    else none
  | .newWorker =>
    if s.pc = .loop then
      some { s with workers := s.workers ++ [{ parallelLevel := s.parallelLeve }], pc := .made }
    else none
  | .addWorker =>
    if s.pc = .made then
      (s.onWorker (s.workers.length - 1) fun w =>
        some (s.setWorker (s.workers.length - 1) { w with listed := true })).map fun s =>
          { s with pc := .loop }
    else none
  | .removeWorker i => s.onWorker i fun w =>
    if w.pc = .finished then some (s.setWorker i { w with listed := false }) else none
  | .lease i ok => s.onWorker i fun w =>
    if w.pc = .leasing then
      if ok then
        some ({ s with
          totalSlot := fetchAdd s.totalSlot w.parallelLevel
          wrapped := s.wrapped || decide (usize ≤ s.totalSlot + w.parallelLevel) }.setWorker i
            { w with pc := .loop })
      else some (s.setWorker i { w with pc := .finished })
    else none
  | .tryRecvBatch i => s.onWorker i fun w =>
    if w.pc = .loop then
      let (reqs, queue) := s.queue.tryRecvBatch (fetchSub s.parallelLeve w.ongoingReqCnt)
      some ({ s with queue }.setWorker i { w with pc := .took reqs.length })
    else none
  | .book i => s.onWorker i fun w =>
    match w.pc with
    | .took cnt => some (s.setWorker i
        { w with ongoingReqCnt := w.ongoingReqCnt + cnt, pc := .handOut cnt })
    | _ => none
  | .connect i ok => s.onWorker i fun w =>
    match w.pc with
    | .handOut (left + 1) =>
      if ok then some (s.setWorker i { w with clients := w.clients + 1, pc := .handOut left })
      else some (s.startFinish i w)
    | _ => none
  | .batched i => s.onWorker i fun w =>
    if w.pc = .handOut 0 then some (s.setWorker i { w with pc := .loop }) else none
  | .handleReturn i fail => s.onWorker i fun w =>
    if w.pc = .loop ∧ 0 < w.clients then
      some ((s.subActive 1).setWorker i { w with clients := w.clients - 1, pc := .returning fail })
    else none
  | .returned i => s.onWorker i fun w =>
    match w.pc with
    | .returning fail =>
      let w' := { w with ongoingReqCnt := w.ongoingReqCnt - 1 }
      if fail && w.failCount == 3 then
        some (s.startFinish i { w' with failCount := w.failCount + 1 })
      else
        some (s.setWorker i { w' with failCount := if fail then w.failCount + 1 else 0, pc := .loop })
    | _ => none
  | .totalSlot i => s.onWorker i fun w =>
    if w.pc = .loop ∧ w.listed = true then
      some (s.setWorker i { w with pc := .needing s.totalSlotCnt })
    else none
  | .needLastWorker i => s.onWorker i fun w =>
    match w.pc with
    | .needing totalSlotCnt =>
      some ({ s with wrapped := s.wrapped || decide (totalSlotCnt < s.parallelLeve) }.setWorker i
        { w with pc := .loop })
    | _ => none
  | .finishWorker i => s.onWorker i fun w =>
    if w.pc = .loop then some (s.startFinish i w) else none
  | .finish i => s.onWorker i fun w =>
    if w.pc = .finishing then
      some ((s.subActive w.ongoingReqCnt).setWorker i { w with pc := .finished })
    else none

/-! ## What is promised -/

/-- An agent at its start. -/
def Start : Prop := ∃ parallel queueLen, s = { parallelLeve := parallel, queue := { queueLen } }

/-- No step is in progress: neither the agent nor a worker has moved a request and not yet
said so in its counter. -/
def Quiet : Prop :=
  (s.pc = .loop ∨ s.pc = .made) ∧ ∀ w ∈ s.workers, w.Settled

/-- The requests that wait, and those of the workers that have not finished. -/
def requestCnt : ℕ :=
  s.queue.reqQueue.length +
    ((s.workers.filter fun w => w.pc ≠ .finished).map FuncWorker.ongoingReqCnt).sum

/-- Active requests are counted exactly. -/
structure Counted : Prop where
  exact : s.Quiet → s.activeReqCnt = s.requestCnt
  never : s.wrapped = false

/-- A request that was put into the queue and is not counted yet. -/
def uncounted : ℕ := if s.pc = .sent then 1 else 0

/-- Requests that were answered and are still counted. -/
def answered : ℕ :=
  match s.pc with
  | .cleaned cnt => cnt
  | _ => 0

/-- All requests that are to be counted. -/
def requests : ℕ := s.queue.reqQueue.length + s.answered + (s.workers.map FuncWorker.held).sum

/-- What a step needs. -/
def Gives : Input → Prop
  -- there is another request when one is not counted yet
  | .handleReturn _ _ => 1 + s.uncounted ≤ s.requests
  | .finish i => ∀ w, s.workers[i]? = some w → w.ongoingReqCnt + s.uncounted ≤ s.requests
  -- the level has not been raised above the slots that were read
  | .needLastWorker i =>
    ∀ w cnt, s.workers[i]? = some w → w.pc = .needing cnt → s.parallelLeve ≤ cnt
  -- counters have room
  | .count => s.requests < usize
  | .lease i true =>
    ∀ w, s.workers[i]? = some w → (s.workers.map FuncWorker.slots).sum + w.parallelLevel < usize
  | _ => True

/-! ## The invariant -/

/-- What holds as long as nothing has wrapped around. -/
structure Inv : Prop where
  unwrapped : s.wrapped = false
  count : s.activeReqCnt + s.uncounted = s.requests
  bound : s.activeReqCnt < usize
  slots : s.totalSlot = (s.workers.map FuncWorker.slots).sum
  slotsBound : s.totalSlot < usize
  workers : ∀ w ∈ s.workers, w.Ok

variable {s} {s' : FuncAgent} {i : ℕ} {w w' : FuncWorker}

theorem onWorker_eq_some {f : FuncWorker → Option FuncAgent} :
    s.onWorker i f = some s' ↔ ∃ w, s.workers[i]? = some w ∧ f w = some s' := Option.bind_eq_some_iff

theorem sum_set (f : FuncWorker → ℕ) (w' : FuncWorker) {l : List FuncWorker} (h : l[i]? = some w) :
    ((l.set i w').map f).sum + f w = (l.map f).sum + f w' := by
  have hperm : (l.set i w').Perm (w' :: l.eraseIdx i) := List.set_perm_of_getElem? h
  have hset := (hperm.map f).sum_eq
  have hold := ((List.cons_eraseIdx_perm h).map f).sum_eq
  rw [List.map_cons, List.sum_cons] at hset hold
  omega

/-- **A step of a worker** that changes the counters as it changes what they count. -/
theorem Inv.worker (h : s.Inv) (hw : s.workers[i]? = some w) (hworkers : s'.workers = s.workers.set i w')
    (hok : w'.Ok) (hpc : s'.pc = s.pc) (hwrapped : s'.wrapped = false)
    (hcount : s'.activeReqCnt + w.held + s.queue.reqQueue.length =
      s.activeReqCnt + w'.held + s'.queue.reqQueue.length)
    (hbound : s'.activeReqCnt < usize) (hslots : s'.totalSlot + w.slots = s.totalSlot + w'.slots)
    (hslotsBound : s'.totalSlot < usize) : s'.Inv := by
  refine ⟨hwrapped, ?_, hbound, ?_, hslotsBound, fun x hx => ?_⟩
  · have hsum := sum_set FuncWorker.held w' hw
    have hold := h.count
    unfold requests at hold ⊢
    have huncounted : s'.uncounted = s.uncounted := by
      unfold uncounted
      rw [hpc]
    have hanswered : s'.answered = s.answered := by
      unfold answered
      rw [hpc]
    rw [hworkers, huncounted, hanswered]
    omega
  · have hsum := sum_set FuncWorker.slots w' hw
    have hold := h.slots
    rw [hworkers]
    omega
  · rw [hworkers] at hx
    rcases List.mem_or_eq_of_mem_set hx with hx | rfl
    · exact h.workers x hx
    · exact hok

theorem fetchSub_of_le {n k : ℕ} (h : k ≤ n) : fetchSub n k = n - k := if_pos h

theorem Inv.slots_le (h : s.Inv) (hw : s.workers[i]? = some w) : w.slots ≤ s.totalSlot := by
  have hsum := sum_set FuncWorker.slots { w with pc := .finished } hw
  have hzero : FuncWorker.slots { w with pc := .finished } = 0 := rfl
  have hold := h.slots
  omega

theorem Inv.ok (h : s.Inv) (hw : s.workers[i]? = some w) : w.Ok := h.workers w (List.mem_of_getElem? hw)

/-- `FinishWorker` finds the slots of the worker in `totalSlot`. -/
theorem Inv.startFinish (h : s.Inv) (hw : s.workers[i]? = some w) (hslots : w.slots = w.parallelLevel)
    {x : FuncWorker} (hx : x.parallelLevel = w.parallelLevel) (hheld : x.ongoingReqCnt = w.held)
    (hok : x.clients ≤ x.ongoingReqCnt) : (s.startFinish i x).Inv := by
  have hle : x.parallelLevel ≤ s.totalSlot := by
    rw [hx, ← hslots]
    exact h.slots_le hw
  have hbound := h.slotsBound
  have hsub := fetchSub_of_le hle
  have hworkers : (s.startFinish i x).workers = s.workers.set i { x with pc := .finishing } := rfl
  refine h.worker hw hworkers hok rfl ?_ ?_ h.bound ?_ ?_
  · simp [FuncAgent.startFinish, subSlots, setWorker, h.unwrapped, hle]
  · change s.activeReqCnt + w.held + _ = s.activeReqCnt + x.ongoingReqCnt + _
    rw [hheld]
    rfl
  · change fetchSub s.totalSlot x.parallelLevel + w.slots = s.totalSlot + 0
    omega
  · change fetchSub s.totalSlot x.parallelLevel < usize
    omega

/-- A step of the agent that leaves its workers alone. -/
theorem Inv.agent (h : s.Inv) (hworkers : s'.workers = s.workers) (hslots : s'.totalSlot = s.totalSlot)
    (hwrapped : s'.wrapped = false) (hbound : s'.activeReqCnt < usize)
    (hcount : s'.activeReqCnt + s'.uncounted + s.queue.reqQueue.length + s.answered =
      s.activeReqCnt + s.uncounted + s'.queue.reqQueue.length + s'.answered) : s'.Inv := by
  refine ⟨hwrapped, ?_, hbound, ?_, ?_, ?_⟩
  · have hold := h.count
    unfold requests at hold ⊢
    rw [hworkers]
    omega
  · rw [hslots, hworkers]
    exact h.slots
  · rw [hslots]
    exact h.slotsBound
  · rw [hworkers]
    exact h.workers

/-- A step of a worker that changes nothing but the worker. -/
theorem Inv.setWorker (h : s.Inv) (hw : s.workers[i]? = some w) (hok : w'.Ok) (hheld : w'.held = w.held)
    (hslots : w'.slots = w.slots) : (s.setWorker i w').Inv := by
  refine h.worker hw rfl hok rfl h.unwrapped ?_ h.bound ?_ h.slotsBound
  · rw [hheld]
    rfl
  · rw [hslots]
    rfl

/-- A worker moves and keeps what it holds. -/
inductive Keeps (s : FuncAgent) : FuncAgent → Prop where
  | alone {i : ℕ} {w w' : FuncWorker} : s.workers[i]? = some w → w'.Ok → w'.held = w.held →
      w'.slots = w.slots → Keeps s (s.setWorker i w')
  /-- it starts to finish -/
  | finishing {i : ℕ} {w x : FuncWorker} : s.workers[i]? = some w → w.slots = w.parallelLevel →
      x.parallelLevel = w.parallelLevel → x.ongoingReqCnt = w.held →
      x.clients ≤ x.ongoingReqCnt → Keeps s (s.startFinish i x)

theorem Keeps.inv (hk : s.Keeps s') (h : s.Inv) : s'.Inv := by
  cases hk with
  | alone hw hok hheld hslots => exact h.setWorker hw hok hheld hslots
  | finishing hw hslots hx hheld hok => exact h.startFinish hw hslots hx hheld hok

/-- The steps in which a worker keeps what it holds. -/
theorem keeps_next (h : s.Inv) {c : Input} (hkind : c.kind = .keeps) (hnext : s.next c = some s') :
    s.Keeps s' := by
  cases c with
  | removeWorker i =>
    obtain ⟨w, hi, hw⟩ := onWorker_eq_some.mp hnext
    have hok := h.ok hi
    split at hw <;> cases hw
    exact .alone hi hok rfl rfl
  | lease i ok =>
    cases ok with
    | true => cases hkind
    | false =>
      obtain ⟨w, hi, hw⟩ := onWorker_eq_some.mp hnext
      have hok := h.ok hi
      split at hw
      next hpc =>
        cases hw
        simp only [FuncWorker.Ok, hpc] at hok
        have hclients : w.clients ≤ w.ongoingReqCnt := by omega
        refine .alone hi hclients ?_ ?_
        · simp only [FuncWorker.held, hpc]
          exact hok.1.symm
        · simp only [FuncWorker.slots, hpc]
      next => cases hw
  | book i =>
    obtain ⟨w, hi, hw⟩ := onWorker_eq_some.mp hnext
    have hok := h.ok hi
    split at hw
    next cnt hpc =>
      cases hw
      simp only [FuncWorker.Ok, hpc] at hok
      exact .alone hi (Nat.add_le_add_right hok cnt) (by simp only [FuncWorker.held, hpc])
        (by simp only [FuncWorker.slots, hpc])
    next => cases hw
  | connect i ok =>
    obtain ⟨w, hi, hw⟩ := onWorker_eq_some.mp hnext
    have hok := h.ok hi
    split at hw
    next left hpc =>
      simp only [FuncWorker.Ok, hpc] at hok
      split at hw <;> cases hw
      · refine .alone hi ?_ (by simp only [FuncWorker.held, hpc]) (by simp only [FuncWorker.slots, hpc])
        change w.clients + 1 + left ≤ w.ongoingReqCnt
        omega
      · exact .finishing hi (by simp only [FuncWorker.slots, hpc]) rfl
          (by simp only [FuncWorker.held, hpc]) (by omega)
    next => cases hw
  | batched i =>
    obtain ⟨w, hi, hw⟩ := onWorker_eq_some.mp hnext
    have hok := h.ok hi
    split at hw
    next hpc =>
      cases hw
      simp only [FuncWorker.Ok, hpc] at hok
      exact .alone hi hok (by simp only [FuncWorker.held, hpc]) (by simp only [FuncWorker.slots, hpc])
    next => cases hw
  | returned i =>
    obtain ⟨w, hi, hw⟩ := onWorker_eq_some.mp hnext
    have hok := h.ok hi
    split at hw
    next fail hpc =>
      simp only [FuncWorker.Ok, hpc] at hok
      simp only at hw
      split at hw <;> cases hw
      · exact .finishing hi (by simp only [FuncWorker.slots, hpc]) rfl
          (by simp only [FuncWorker.held, hpc]) (Nat.le_sub_of_add_le hok)
      · exact .alone hi (Nat.le_sub_of_add_le hok) (by simp only [FuncWorker.held, hpc])
          (by simp only [FuncWorker.slots, hpc])
    next => cases hw
  | totalSlot i =>
    obtain ⟨w, hi, hw⟩ := onWorker_eq_some.mp hnext
    have hok := h.ok hi
    split at hw
    next hpc =>
      cases hw
      simp only [FuncWorker.Ok, hpc.1] at hok
      exact .alone hi hok (by simp only [FuncWorker.held, hpc.1])
        (by simp only [FuncWorker.slots, hpc.1])
    next => cases hw
  | finishWorker i =>
    obtain ⟨w, hi, hw⟩ := onWorker_eq_some.mp hnext
    have hok := h.ok hi
    split at hw
    next hpc =>
      cases hw
      simp only [FuncWorker.Ok, hpc] at hok
      exact .finishing hi (by simp only [FuncWorker.slots, hpc]) rfl
        (by simp only [FuncWorker.held, hpc]) hok
    next => cases hw
  | _ => cases hkind

theorem gives_of_keeps {c : Input} (hkind : c.kind = .keeps) : s.Gives c := by
  cases c with
  | lease i ok =>
    cases ok with
    | true => cases hkind
    | false => trivial
  | removeWorker | book | connect | batched | returned | totalSlot | finishWorker => trivial
  | _ => cases hkind

/-- The steps of the agent: whether a counter wraps around. -/
theorem wrapped_agent (h : s.Inv) {c : Input} (hkind : c.kind = .agent) (hnext : s.next c = some s') :
    s'.wrapped = false ↔ s.Gives c := by
  have hun := h.unwrapped
  have hcount := h.count
  cases c with
  | cleanTimeout now | recv req | updatePolicy parallel queueLen | newWorker =>
    simp only [next] at hnext
    split at hnext <;> cases hnext
    exact iff_of_true hun trivial
  | subTimeouts =>
    simp only [next] at hnext
    split at hnext
    next cnt hpc =>
      cases hnext
      refine iff_of_true ?_ trivial
      have hle : cnt ≤ s.activeReqCnt := by
        simp only [uncounted, requests, answered, hpc] at hcount
        simp at hcount
        omega
      simp [subActive, hun, hle]
    next => cases hnext
  | count =>
    simp only [next] at hnext
    split at hnext
    next hpc =>
      cases hnext
      simp only [uncounted, hpc, if_true] at hcount
      simp only [Gives, hun, Bool.false_or, decide_eq_false_iff_not, not_le]
      omega
    next => cases hnext
  | addWorker =>
    simp only [next] at hnext
    split at hnext
    · obtain ⟨t, ht, rfl⟩ := Option.map_eq_some_iff.mp hnext
      obtain ⟨w, -, hw⟩ := onWorker_eq_some.mp ht
      cases hw
      exact iff_of_true hun trivial
    · cases hnext
  | lease i ok => cases ok <;> cases hkind
  | _ => cases hkind

/-- The steps of a worker with the counters: whether one of them wraps around. -/
theorem wrapped_counts (h : s.Inv) {c : Input} (hkind : c.kind = .counts)
    (hnext : s.next c = some s') : s'.wrapped = false ↔ s.Gives c := by
  have hun := h.unwrapped
  have hcount := h.count
  cases c with
  | tryRecvBatch i =>
    obtain ⟨w, -, hw⟩ := onWorker_eq_some.mp hnext
    split at hw <;> cases hw
    exact iff_of_true hun trivial
  | lease i ok =>
    cases ok with
    | false => cases hkind
    | true =>
      obtain ⟨w, hi, hw⟩ := onWorker_eq_some.mp hnext
      split at hw
      next hpc =>
        cases hw
        have hslots := h.slots
        simp only [Gives, setWorker, hun, Bool.false_or, decide_eq_false_iff_not, not_le, hi,
          Option.some.injEq, forall_eq']
        omega
      next => cases hw
  | handleReturn i fail =>
    obtain ⟨w, hi, hw⟩ := onWorker_eq_some.mp hnext
    split at hw <;> cases hw
    simp only [Gives, setWorker, subActive, hun, Bool.false_or, decide_eq_false_iff_not, not_lt]
    omega
  | needLastWorker i =>
    obtain ⟨w, hi, hw⟩ := onWorker_eq_some.mp hnext
    split at hw
    next cnt hpc =>
      cases hw
      simp only [Gives, setWorker, hun, Bool.false_or, decide_eq_false_iff_not, not_lt, hi,
        Option.some.injEq]
      constructor
      · rintro hle _ _ rfl heq
        rw [hpc] at heq
        exact WorkerPc.needing.inj heq ▸ hle
      · exact fun hall => hall w cnt rfl hpc
    next => cases hw
  | finish i =>
    obtain ⟨w, hi, hw⟩ := onWorker_eq_some.mp hnext
    split at hw <;> cases hw
    simp only [Gives, setWorker, subActive, hun, Bool.false_or, decide_eq_false_iff_not, not_lt, hi,
      Option.some.injEq, forall_eq']
    omega
  | _ => cases hkind

/-- **One step**: nothing wraps around, if and only if the step has what it needs. -/
theorem wrapped_next (h : s.Inv) {c : Input} (hnext : s.next c = some s') :
    s'.wrapped = false ↔ s.Gives c := by
  rcases hkind : c.kind with _ | _ | _
  · exact wrapped_agent h hkind hnext
  · exact iff_of_true ((keeps_next h hkind hnext).inv h).unwrapped (gives_of_keeps hkind)
  · exact wrapped_counts h hkind hnext

/-- The steps of the agent, without a counter that wraps around. -/
theorem inv_agent (h : s.Inv) {c : Input} (hkind : c.kind = .agent) (hnext : s.next c = some s')
    (hwrapped : s'.wrapped = false) : s'.Inv := by
  have hbound := h.bound
  cases c with
  | cleanTimeout now =>
    simp only [next] at hnext
    split at hnext
    next hpc =>
      cases hnext
      refine h.agent rfl rfl hwrapped hbound ?_
      simp only [uncounted, answered, hpc, ClientReqQueue.cleanTimeout_eq]
      have hsplit := congrArg List.length
        (List.takeWhile_append_dropWhile (p := fun r : FuncClientReq => r.expired now) (l := s.queue.reqQueue))
      rw [List.length_append] at hsplit
      simp
      omega
    next => cases hnext
  | subTimeouts =>
    simp only [next] at hnext
    split at hnext
    next cnt hpc =>
      cases hnext
      have hle : cnt ≤ s.activeReqCnt := by
        simpa [subActive, h.unwrapped] using hwrapped
      have hsub := fetchSub_of_le hle
      refine h.agent rfl rfl hwrapped (by simp only [subActive]; omega) ?_
      simp only [uncounted, answered, hpc, subActive]
      simp
      omega
    next => cases hnext
  | recv req =>
    simp only [next] at hnext
    split at hnext
    next hpc =>
      cases hnext
      refine h.agent rfl rfl hwrapped hbound ?_
      simp only [uncounted, answered, hpc, ClientReqQueue.send]
      split <;> simp
      omega
    next => cases hnext
  | count =>
    simp only [next] at hnext
    split at hnext
    next hpc =>
      cases hnext
      have hlt : s.activeReqCnt + 1 < usize := by
        simpa [h.unwrapped] using hwrapped
      have hadd : fetchAdd s.activeReqCnt 1 = s.activeReqCnt + 1 := if_pos hlt
      refine h.agent rfl rfl hwrapped (by simp only; omega) ?_
      simp only [uncounted, answered, hpc, hadd]
      simp
    next => cases hnext
  | updatePolicy parallel queueLen =>
    simp only [next] at hnext
    split at hnext <;> cases hnext
    exact h.agent rfl rfl hwrapped hbound rfl
  | newWorker =>
    simp only [next] at hnext
    split at hnext
    next hpc =>
      cases hnext
      refine ⟨hwrapped, ?_, hbound, ?_, h.slotsBound, fun w hw => ?_⟩
      · have hold := h.count
        simp only [uncounted, requests, answered, hpc] at hold ⊢
        simp [FuncWorker.held] at hold ⊢
        omega
      · have hold := h.slots
        simp [FuncWorker.slots]
        exact hold
      · rcases List.mem_append.mp hw with hw | hw
        · exact h.workers w hw
        · rw [List.mem_singleton.mp hw]
          exact ⟨rfl, rfl⟩
    next => cases hnext
  | addWorker =>
    simp only [next] at hnext
    split at hnext
    next hpc =>
      obtain ⟨t, ht, rfl⟩ := Option.map_eq_some_iff.mp hnext
      obtain ⟨w, hi, hw⟩ := onWorker_eq_some.mp ht
      cases hw
      have hok := h.ok hi
      have hset : (s.setWorker (s.workers.length - 1) { w with listed := true }).Inv :=
        h.setWorker hi hok rfl rfl
      refine hset.agent rfl rfl hwrapped hbound ?_
      simp [uncounted, answered, setWorker, hpc]
    next => cases hnext
  | lease i ok => cases ok <;> cases hkind
  | _ => cases hkind

/-- The steps of a worker with the counters, without one that wraps around. -/
theorem inv_counts (h : s.Inv) {c : Input} (hkind : c.kind = .counts) (hnext : s.next c = some s')
    (hwrapped : s'.wrapped = false) : s'.Inv := by
  have hbound := h.bound
  cases c with
  | lease i ok =>
    cases ok with
    | false => cases hkind
    | true =>
      obtain ⟨w, hi, hw⟩ := onWorker_eq_some.mp hnext
      have hok := h.ok hi
      split at hw
      next hpc =>
        cases hw
        simp only [FuncWorker.Ok, hpc] at hok
        have hclients : w.clients ≤ w.ongoingReqCnt := by omega
        have hlt : s.totalSlot + w.parallelLevel < usize := by
          simpa [FuncAgent.setWorker, h.unwrapped] using hwrapped
        have hadd : fetchAdd s.totalSlot w.parallelLevel = s.totalSlot + w.parallelLevel := if_pos hlt
        refine h.worker hi rfl hclients rfl hwrapped ?_ hbound ?_ (by simp only [FuncAgent.setWorker]; omega)
        · simp [FuncAgent.setWorker, FuncWorker.held, hpc]
        · simp [FuncAgent.setWorker, FuncWorker.slots, hpc, hadd]
      next => cases hw
  | tryRecvBatch i =>
    obtain ⟨w, hi, hw⟩ := onWorker_eq_some.mp hnext
    have hok := h.ok hi
    split at hw
    next hpc =>
      cases hw
      simp only [FuncWorker.Ok, hpc] at hok
      refine h.worker hi rfl hok rfl hwrapped ?_ hbound ?_ h.slotsBound
      · simp only [FuncAgent.setWorker, FuncWorker.held, hpc, List.length_take,
          List.length_drop]
        omega
      · simp [FuncAgent.setWorker, FuncWorker.slots, hpc]
    next => cases hw
  | handleReturn i fail =>
    obtain ⟨w, hi, hw⟩ := onWorker_eq_some.mp hnext
    have hok := h.ok hi
    split at hw
    next hpc =>
      cases hw
      simp only [FuncWorker.Ok, hpc.1] at hok
      have hpos := hpc.2
      have hle : 1 ≤ s.activeReqCnt := by
        simpa [FuncAgent.setWorker, subActive, h.unwrapped, Nat.one_le_iff_ne_zero] using hwrapped
      have hsub := fetchSub_of_le hle
      refine h.worker hi rfl ?_ rfl hwrapped ?_ ?_ ?_ h.slotsBound
      · change w.clients - 1 + 1 ≤ w.ongoingReqCnt
        omega
      · simp only [FuncAgent.setWorker, subActive, FuncWorker.held, hpc.1, hsub]
        omega
      · simp only [FuncAgent.setWorker, subActive, hsub]
        omega
      · simp only [FuncAgent.setWorker, subActive, FuncWorker.slots, hpc.1]
    next => cases hw
  | needLastWorker i =>
    obtain ⟨w, hi, hw⟩ := onWorker_eq_some.mp hnext
    have hok := h.ok hi
    split at hw
    next cnt hpc =>
      cases hw
      simp only [FuncWorker.Ok, hpc] at hok
      refine h.worker hi rfl hok rfl hwrapped ?_ hbound ?_ h.slotsBound
      · simp only [FuncAgent.setWorker, FuncWorker.held, hpc]
      · simp only [FuncAgent.setWorker, FuncWorker.slots, hpc]
    next => cases hw
  | finish i =>
    obtain ⟨w, hi, hw⟩ := onWorker_eq_some.mp hnext
    have hok := h.ok hi
    split at hw
    next hpc =>
      cases hw
      simp only [FuncWorker.Ok, hpc] at hok
      have hle : w.ongoingReqCnt ≤ s.activeReqCnt := by
        simpa [FuncAgent.setWorker, subActive, h.unwrapped] using hwrapped
      have hsub := fetchSub_of_le hle
      refine h.worker hi rfl hok rfl hwrapped ?_ ?_ ?_ h.slotsBound
      · simp only [FuncAgent.setWorker, subActive, FuncWorker.held, hpc, hsub]
        omega
      · simp only [FuncAgent.setWorker, subActive, hsub]
        omega
      · simp only [FuncAgent.setWorker, subActive, FuncWorker.slots, hpc]
    next => cases hw
  | _ => cases hkind

/-- **One step** without a counter that wraps around keeps the invariant. -/
theorem inv_next (h : s.Inv) {c : Input} (hnext : s.next c = some s') (hwrapped : s'.wrapped = false) :
    s'.Inv := by
  rcases hkind : c.kind with _ | _ | _
  · exact inv_agent h hkind hnext hwrapped
  · exact (keeps_next h hkind hnext).inv h
  · exact inv_counts h hkind hnext hwrapped

/-! ## Runs -/

theorem Start.inv (h : s.Start) : s.Inv := by
  obtain ⟨parallel, queueLen, rfl⟩ := h
  have hpos : 0 < usize := by decide
  exact ⟨rfl, rfl, hpos, rfl, hpos, fun w hw => absurd hw List.not_mem_nil⟩

/-- Workers whose counters are up to date hold what they have taken, until they finish. -/
theorem sum_held {l : List FuncWorker} (h : ∀ w ∈ l, w.Settled) : (l.map FuncWorker.held).sum =
    ((l.filter fun w => w.pc ≠ .finished).map FuncWorker.ongoingReqCnt).sum := by
  induction l with
  | nil => rfl
  | cons w l ih =>
    have hw := h w List.mem_cons_self
    rw [List.map_cons, List.sum_cons, ih fun x hx => h x (List.mem_cons_of_mem _ hx), List.filter_cons]
    unfold FuncWorker.Settled at hw
    unfold FuncWorker.held
    cases hpc : w.pc <;> simp [hpc] at hw ⊢

theorem Inv.counted (h : s.Inv) : s.Counted := by
  refine ⟨fun hquiet => ?_, h.unwrapped⟩
  have hcount := h.count
  have hheld := sum_held hquiet.2
  have hpc : s.uncounted = 0 ∧ s.answered = 0 := by
    unfold uncounted answered
    rcases hquiet.1 with hpc | hpc <;> rw [hpc] <;> exact ⟨rfl, rfl⟩
  unfold requests at hcount
  unfold requestCnt
  omega

/-- **Every run** whose steps have what they need counts the active requests exactly, and a next
step lets a counter wrap around exactly if it has not. -/
theorem counted_run (h : Reach next Start Gives s) : s.Counted ∧
    ∀ (c : Input) (s' : FuncAgent), s.next c = some s' → (s'.wrapped = false ↔ s.Gives c) := by
  have hinv : s.Inv := h.invariant (fun _ hs => hs.inv) fun _ _ _ hs hok hnext =>
    inv_next hs hnext ((wrapped_next hs hnext).mpr hok)
  exact ⟨hinv.counted, fun _ _ hnext => wrapped_next hinv hnext⟩

def sampleReq : FuncClientReq := ⟨0, 30000, 0⟩

def sampleAgent : FuncAgent := { parallelLeve := 1, queue := { queueLen := 10 } }

/-- A worker takes a request that is counted, and gives it back. -/
theorem counted_sample : ∃ s : FuncAgent, s.workers.map FuncWorker.ongoingReqCnt = [0] ∧
    s.Counted ∧ ∀ (c : Input) (s' : FuncAgent), s.next c = some s' → (s'.wrapped = false ↔ s.Gives c) := by
  have hworker : Reach next Start Gives _ := .step (c := .addWorker)
    (.step (c := .newWorker) (.init (⟨1, 10, rfl⟩ : Start sampleAgent)) trivial rfl) trivial rfl
  have hleased : Reach next Start Gives _ := .step (c := .lease 0 true) hworker
    (fun w hw => (Option.some.inj hw) ▸ (by decide : (0 : ℕ) + 1 < usize)) rfl
  have hcounted : Reach next Start Gives _ := .step (c := .count)
    (.step (c := .recv sampleReq) hleased trivial rfl) (show FuncAgent.requests _ < usize by decide) rfl
  have htaken : Reach next Start Gives _ := .step (c := .book 0)
    (.step (c := .tryRecvBatch 0) hcounted trivial rfl) trivial rfl
  have hserved : Reach next Start Gives _ := .step (c := .batched 0)
    (.step (c := .connect 0 true) htaken trivial rfl) trivial rfl
  have hgiven : Reach next Start Gives _ := .step (c := .handleReturn 0 false) hserved
    (show 1 + FuncAgent.uncounted _ ≤ FuncAgent.requests _ by decide) rfl
  exact ⟨_, rfl, counted_run (.step (c := .returned 0) hgiven trivial rfl)⟩

/-- A worker takes a request and gives it back before the agent has counted it. -/
def overtaken : List Input :=
  [.newWorker, .addWorker, .lease 0 true, .recv sampleReq, .tryRecvBatch 0, .book 0, .connect 0 true,
    .batched 0, .handleReturn 0 false]

theorem lowered_before_raised : ¬ ∀ s : FuncAgent, Reach next Start (fun _ _ => True) s → s.Counted := by
  intro h
  have hrun : ∃ s', exec next (fun _ _ => True) sampleAgent overtaken = some s' ∧ s'.wrapped = true :=
    ⟨_, rfl, by decide⟩
  obtain ⟨s', hexec, hwrapped⟩ := hrun
  have hcounted := h s' (Reach.of_exec _ _ (.init ⟨1, 10, rfl⟩) hexec)
  exact absurd (hcounted.never.symm.trans hwrapped) Bool.false_ne_true

end FuncAgent

end Inferx.Gateway.ActiveReqs
