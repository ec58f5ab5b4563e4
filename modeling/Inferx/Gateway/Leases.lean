import Mathlib.Data.Finset.Basic
import Inferx.Lib.Runs

/-!
# Leased workers

The gateway keeps the pods it has leased in `leasedWorkers`, and tells them to a
scheduler that has restarted. A lease puts its pod there when the answer arrives; a
return is tried up to ten times, takes the pod out when the scheduler has accepted
it, and takes it out once more when the task ends. The set knows pods and not
leases: a pod that is leased again while the task of the lease before still runs has
its entry taken out by that task.

`remembers` is what holds of every run in which no task takes out the entry of a
later lease.
-/

namespace Inferx.Gateway.Leases

/-- The function a lease is asked for. -/
structure Func where
  tenant : String
  nameSpace : String
  funcname : String
  fprevision : ℤ
  deriving DecidableEq

/-- `LeasedWorker`: a pod of a function. -/
structure LeasedWorker where
  func : Func
  id : ℕ
  deriving DecidableEq

/-! ## The scheduler -/

/-- A pod, for the scheduler. -/
inductive PodState where
  | absent
  | idle
  /-- leased, to this gateway or to another one -/
  | working (ours : Bool)
  | terminating
  deriving DecidableEq

/-- The answer to a return. -/
inductive ReturnResp where
  | ok
  /-- `NotExist`: there is no such pod -/
  | notExist
  deriving DecidableEq

/-- `ProcessReturnWorkerReq`: it asks nobody whether the pod is still leased to the caller. -/
def processReturnWorkerReq (failworker : Bool) : PodState → ReturnResp × PodState
  | .absent => (.notExist, .absent)
  | .terminating => (.ok, .terminating)
  | .idle => (.ok, if failworker then .terminating else .idle)
  | .working _ => (.ok, if failworker then .terminating else .idle)

/-! ## The gateway -/

/-- A call of `LeaseWorker`. -/
inductive LeaseCall where
  /-- the scheduler has not processed it yet -/
  | asked (f : Func)
  /-- the answer is on its way -/
  | granted (pod : LeasedWorker)
  deriving DecidableEq

/-- How far a return task is. -/
inductive Stage where
  /-- the scheduler has not processed the request of this attempt yet -/
  | sent
  /-- the answer is on its way -/
  | answered (resp : ReturnResp)
  /-- the last removal is to be done -/
  | cleanUp
  deriving DecidableEq

/-- A task of `spawn_return_worker_retry`. -/
structure ReturnTask where
  pod : LeasedWorker
  /-- which lease it returns -/
  lease : ℕ
  failworker : Bool
  retryCount : ℕ := 0
  stage : Stage := .sent
  deriving DecidableEq

def maxRetries : ℕ := 10

/-- An attempt has failed. -/
def ReturnTask.failed (t : ReturnTask) : ReturnTask :=
  if maxRetries ≤ t.retryCount + 1 then { t with retryCount := t.retryCount + 1, stage := .cleanUp }
  else { t with retryCount := t.retryCount + 1, stage := .sent }

/-- The gateway and the scheduler. -/
structure State where
  /-- the pods of the scheduler -/
  pods : LeasedWorker → PodState := fun _ => .absent
  leasedWorkers : Finset LeasedWorker := ∅
  /-- calls of `LeaseWorker` in progress -/
  calls : List LeaseCall := []
  /-- workers in use: the pod and the lease -/
  workers : List (LeasedWorker × ℕ) := []
  /-- return tasks in progress -/
  tasks : List ReturnTask := []
  /-- how many leases there were -/
  leases : ℕ := 0
  /-- the last lease of a pod to this gateway -/
  last : LeasedWorker → Option ℕ := fun _ => none
  /-- the leases that are returned or given up -/
  finished : Finset ℕ := ∅

/-- What can happen. -/
inductive Input where
  /-- `LeaseWorker` is called -/
  | lease (f : Func)
  /-- the scheduler answers a lease with a pod that is idle -/
  | grant (i : ℕ) (pod : LeasedWorker)
  /-- a lease is refused, or its call fails on the way -/
  | leaseFails (i : ℕ)
  /-- the answer to a lease arrives -/
  | leased (i : ℕ)
  /-- a worker is done, and its return task is spawned -/
  | spawnReturn (i : ℕ) (failworker : Bool)
  /-- the scheduler processes a return -/
  | processReturn (i : ℕ)
  /-- an attempt to return fails on the way -/
  | returnFails (i : ℕ)
  /-- the answer to a return arrives -/
  | returned (i : ℕ)
  /-- a return task makes its last removal and ends -/
  | cleanUp (i : ℕ)
  /-- a pod becomes ready -/
  | ready (pod : LeasedWorker)
  /-- a pod is gone -/
  | gone (pod : LeasedWorker)
  /-- another gateway leases a pod -/
  | taken (pod : LeasedWorker)
  /-- another gateway returns a pod -/
  | freed (pod : LeasedWorker)

namespace State

variable (s : State)

/-- The scheduler changes one pod. -/
def setPod (pod : LeasedWorker) (p : PodState) : State :=
  { s with pods := Function.update s.pods pod p }

/-- The pod moves from one state to another. -/
def movePod (pod : LeasedWorker) (old new : PodState) : Option State :=
  if s.pods pod = old then some (s.setPod pod new) else none

/-- One input. -/
def next : Input → Option State
  | .lease f => some { s with calls := s.calls ++ [.asked f] }
  | .grant i pod =>
    match s.calls[i]? with
    | some (.asked f) =>
      if pod.func = f ∧ s.pods pod = .idle then
        some { s.setPod pod (.working true) with calls := s.calls.set i (.granted pod) }
      else none
    | _ => none
  | .leaseFails i => if i < s.calls.length then some { s with calls := s.calls.eraseIdx i } else none
  | .leased i =>
    match s.calls[i]? with
    | some (.granted pod) =>
      some { s with
        leasedWorkers := insert pod s.leasedWorkers
        calls := s.calls.eraseIdx i
        workers := s.workers ++ [(pod, s.leases)]
        leases := s.leases + 1
        last := Function.update s.last pod (some s.leases) }
    | _ => none
  | .spawnReturn i failworker =>
    match s.workers[i]? with
    | some w =>
      some { s with
        workers := s.workers.eraseIdx i
        tasks := s.tasks ++ [{ pod := w.1, lease := w.2, failworker := failworker }] }
    | none => none
  | .processReturn i =>
    match s.tasks[i]? with
    | some t =>
      if t.stage = .sent then
        some { s.setPod t.pod (processReturnWorkerReq t.failworker (s.pods t.pod)).2 with
          tasks := s.tasks.set i
            { t with stage := .answered (processReturnWorkerReq t.failworker (s.pods t.pod)).1 } }
      else none
    | none => none
  | .returnFails i =>
    match s.tasks[i]? with
    | some t => if t.stage = .cleanUp then none else some { s with tasks := s.tasks.set i t.failed }
    | none => none
  | .returned i =>
    match s.tasks[i]? with
    | some t =>
      match t.stage with
      | .answered .ok =>
        some { s with
          leasedWorkers := s.leasedWorkers.erase t.pod
          tasks := s.tasks.set i { t with stage := .cleanUp } }
      -- the pod does not exist, so there is no point in retrying
      | .answered .notExist => some { s with tasks := s.tasks.set i { t with stage := .cleanUp } }
      | _ => none
    | none => none
  | .cleanUp i =>
    match s.tasks[i]? with
    | some t =>
      if t.stage = .cleanUp then
        some { s with
          leasedWorkers := s.leasedWorkers.erase t.pod
          tasks := s.tasks.eraseIdx i
          finished := insert t.lease s.finished }
      else none
    | none => none
  | .ready pod => s.movePod pod .absent .idle
  | .gone pod => some (s.setPod pod .absent)
  | .taken pod => s.movePod pod .idle (.working false)
  | .freed pod => s.movePod pod (.working false) .idle

/-- The workers that `try_connect_once` sends. -/
def connectReq : Finset LeasedWorker := s.leasedWorkers

/-! ## The specification -/

/-- No call is in progress. -/
def Quiet : Prop := s.calls = [] ∧ s.tasks = []

/-- The last lease of a pod to this gateway is neither returned nor given up. -/
def Holds (pod : LeasedWorker) : Prop := ∃ n, s.last pod = some n ∧ n ∉ s.finished

/-- **The gateway remembers the pods it holds.** -/
structure Remembers : Prop where
  /-- exactly these, when no call is in progress -/
  exact : s.Quiet → ∀ pod, pod ∈ s.connectReq ↔ s.Holds pod
  /-- and at any time those that nobody returns -/
  inUse : ∀ pod n, s.last pod = some n → n ∉ s.finished → (∀ t ∈ s.tasks, t.lease ≠ n) →
    pod ∈ s.connectReq

/-- A task returns the last lease of its pod, or finds no entry any more. -/
def Ours (t : ReturnTask) : Prop := s.last t.pod = some t.lease ∨ t.pod ∉ s.leasedWorkers

/-- No task takes out the entry of a later lease. -/
def Orderly : Input → Prop
  | .returned i => ∀ t, s.tasks[i]? = some t → t.stage = .answered .ok → s.Ours t
  | .cleanUp i => ∀ t, s.tasks[i]? = some t → s.Ours t
  | _ => True

/-- A gateway that has just started. -/
def Fresh : Prop := ∃ pods, s = { pods := pods }

end State

/-! ## The invariant -/

/-- The pod and the lease of a task. -/
def ReturnTask.key (t : ReturnTask) : LeasedWorker × ℕ := (t.pod, t.lease)

/-- What holds of every orderly run. -/
structure Inv (s : State) : Prop where
  /-- leases are numbered -/
  last : ∀ pod n, s.last pod = some n → n < s.leases
  /-- leases are numbered -/
  finished : ∀ n ∈ s.finished, n < s.leases
  /-- a worker has a lease of its pod -/
  workers : ∀ w ∈ s.workers, w.2 < s.leases ∧ ∀ pod, s.last pod = some w.2 → pod = w.1
  /-- and so has a return task -/
  tasks : ∀ e ∈ s.tasks.map ReturnTask.key, e.2 < s.leases ∧ ∀ pod, s.last pod = some e.2 → pod = e.1
  /-- a pod that nobody returns has an entry -/
  inUse : ∀ pod n, s.last pod = some n → n ∉ s.finished → (∀ e ∈ s.tasks.map ReturnTask.key, e.2 ≠ n) →
    pod ∈ s.leasedWorkers
  /-- and an entry is one of a lease that is not finished -/
  entry : ∀ pod ∈ s.leasedWorkers, ∃ n, s.last pod = some n ∧ n ∉ s.finished

section Invariant

variable {s s' : State} {i : ℕ} {t t' : ReturnTask} {pod : LeasedWorker}

theorem Inv.fresh (h : s.Fresh) : Inv s := by
  obtain ⟨pods, rfl⟩ := h
  refine ⟨?_, ?_, ?_, ?_, ?_, ?_⟩ <;> simp

/-- The pods of the scheduler and the calls are no matter. -/
theorem Inv.congr (h : Inv s) (hleased : s'.leasedWorkers = s.leasedWorkers) (hworkers : s'.workers = s.workers)
    (htasks : s'.tasks.map ReturnTask.key = s.tasks.map ReturnTask.key) (hleases : s'.leases = s.leases)
    (hlast : s'.last = s.last) (hfinished : s'.finished = s.finished) : Inv s' := by
  refine ⟨?_, ?_, ?_, ?_, ?_, ?_⟩
  · rw [hlast, hleases]
    exact h.last
  · rw [hfinished, hleases]
    exact h.finished
  · rw [hworkers, hleases, hlast]
    exact h.workers
  · rw [htasks, hleases, hlast]
    exact h.tasks
  · rw [htasks, hlast, hfinished, hleased]
    exact h.inUse
  · rw [hleased, hlast, hfinished]
    exact h.entry

/-- A task that goes on keeps its pod and its lease. -/
theorem map_key_set {tasks : List ReturnTask} (ht : tasks[i]? = some t) (hkey : t'.key = t.key) :
    (tasks.set i t').map ReturnTask.key = tasks.map ReturnTask.key := by
  rw [List.map_set, hkey]
  refine List.ext_getElem? fun j => ?_
  rw [List.getElem?_set]
  split
  next hij =>
    subst hij
    split
    next => rw [List.getElem?_map, ht, Option.map_some]
    next hlen => rw [List.getElem?_eq_none (by omega)]
  next => rfl

theorem key_failed (t : ReturnTask) : t.failed.key = t.key := by
  unfold ReturnTask.failed
  split
  next => rfl
  next => rfl

theorem Inv.movePod (h : Inv s) {old new : PodState} (hmove : s.movePod pod old new = some s') : Inv s' := by
  unfold State.movePod at hmove
  split at hmove
  next =>
    obtain rfl := Option.some.inj hmove
    exact h.congr rfl rfl rfl rfl rfl rfl
  next => cases hmove

/-- A lease that is answered gets the next number. -/
theorem Inv.leased (h : Inv s) (pod : LeasedWorker) (calls : List LeaseCall) :
    Inv { s with
      leasedWorkers := insert pod s.leasedWorkers
      calls := calls
      workers := s.workers ++ [(pod, s.leases)]
      leases := s.leases + 1
      last := Function.update s.last pod (some s.leases) } := by
  have hlast : ∀ pod' n, Function.update s.last pod (some s.leases) pod' = some n →
      (pod' = pod ∧ n = s.leases) ∨ (pod' ≠ pod ∧ s.last pod' = some n) := by
    intro pod' n hn
    by_cases heq : pod' = pod
    · rw [heq, Function.update_self] at hn
      exact .inl ⟨heq, (Option.some.inj hn).symm⟩
    · rw [Function.update_of_ne heq] at hn
      exact .inr ⟨heq, hn⟩
  -- whoever has an older lease is not concerned
  have hold : ∀ e : LeasedWorker × ℕ, e.2 < s.leases ∧ (∀ pod, s.last pod = some e.2 → pod = e.1) →
      e.2 < s.leases + 1 ∧
        ∀ pod', Function.update s.last pod (some s.leases) pod' = some e.2 → pod' = e.1 := by
    rintro e ⟨hlt, huniq⟩
    refine ⟨by omega, fun pod' hn => ?_⟩
    obtain ⟨-, heq⟩ | ⟨-, hn⟩ := hlast pod' e.2 hn
    · omega
    · exact huniq pod' hn
  refine ⟨?_, ?_, ?_, ?_, ?_, ?_⟩
  · intro pod' n hn
    obtain ⟨-, rfl⟩ | ⟨-, hn⟩ := hlast pod' n hn
    · exact Nat.lt_succ_self _
    · exact Nat.lt_succ_of_lt (h.last pod' n hn)
  · exact fun n hn => Nat.lt_succ_of_lt (h.finished n hn)
  · intro w hw
    obtain hw | hw := List.mem_append.mp hw
    · exact hold w (h.workers w hw)
    · rw [List.mem_singleton.mp hw]
      refine ⟨Nat.lt_succ_self _, fun pod' hn => ?_⟩
      obtain ⟨heq, -⟩ | ⟨-, hn⟩ := hlast pod' s.leases hn
      · exact heq
      · exact absurd (h.last pod' _ hn) (lt_irrefl _)
  · exact fun e he => hold e (h.tasks e he)
  · intro pod' n hn hfin htasks
    obtain ⟨rfl, -⟩ | ⟨-, hn⟩ := hlast pod' n hn
    · exact Finset.mem_insert_self _ _
    · exact Finset.mem_insert_of_mem (h.inUse pod' n hn hfin htasks)
  · intro pod' hmem
    by_cases heq : pod' = pod
    · subst heq
      refine ⟨s.leases, Function.update_self _ _ _, fun hfin => ?_⟩
      exact absurd (h.finished _ hfin) (lt_irrefl _)
    · obtain ⟨n, hn, hfin⟩ := h.entry pod' (Finset.mem_of_mem_insert_of_ne hmem heq)
      exact ⟨n, (Function.update_of_ne heq _ _).trans hn, hfin⟩

/-- The entry that a task takes out is not the one of a lease that somebody else has. -/
theorem mem_erase_of_ours (ht : s.Ours t) (hmem : pod ∈ s.leasedWorkers) {n : ℕ}
    (hn : s.last pod = some n) (hne : n ≠ t.lease) : pod ∈ s.leasedWorkers.erase t.pod := by
  refine Finset.mem_erase.mpr ⟨?_, hmem⟩
  rintro rfl
  obtain hours | hnone := ht
  · rw [hn] at hours
    exact hne (Option.some.inj hours)
  · exact hnone hmem

/-- A return that is accepted takes out the entry. -/
theorem Inv.returned (h : Inv s) (hi : s.tasks[i]? = some t) (ht : s.Ours t) (hkey : t'.key = t.key) :
    Inv { s with leasedWorkers := s.leasedWorkers.erase t.pod, tasks := s.tasks.set i t' } := by
  have hmap := map_key_set hi hkey
  have hmem : t.key ∈ s.tasks.map ReturnTask.key := List.mem_map_of_mem (List.mem_of_getElem? hi)
  refine ⟨h.last, h.finished, h.workers, ?_, ?_, ?_⟩
  · rw [hmap]
    exact h.tasks
  · intro pod n hn hfin hno
    rw [hmap] at hno
    exact mem_erase_of_ours ht (h.inUse pod n hn hfin hno) hn (hno t.key hmem).symm
  · exact fun pod hpod => h.entry pod (Finset.mem_of_mem_erase hpod)

/-- A task that ends takes out the entry, and finishes the lease. -/
theorem Inv.cleanUp (h : Inv s) (hi : s.tasks[i]? = some t) (ht : s.Ours t) :
    Inv { s with
      leasedWorkers := s.leasedWorkers.erase t.pod
      tasks := s.tasks.eraseIdx i
      finished := insert t.lease s.finished } := by
  have hmem : t.key ∈ s.tasks.map ReturnTask.key := List.mem_map_of_mem (List.mem_of_getElem? hi)
  obtain ⟨hlt, huniq⟩ := h.tasks t.key hmem
  have hsub : ∀ e ∈ (s.tasks.eraseIdx i).map ReturnTask.key, e ∈ s.tasks.map ReturnTask.key := by
    intro e he
    obtain ⟨t', ht', rfl⟩ := List.mem_map.mp he
    exact List.mem_map_of_mem (List.mem_of_mem_eraseIdx ht')
  refine ⟨h.last, ?_, h.workers, fun e he => h.tasks e (hsub e he), ?_, ?_⟩
  · intro n hn
    obtain rfl | hn := Finset.mem_insert.mp hn
    · exact hlt
    · exact h.finished n hn
  · intro pod n hn hfin hno
    obtain ⟨hne, hfin⟩ := not_or.mp fun hor => hfin (Finset.mem_insert.mpr hor)
    refine mem_erase_of_ours ht (h.inUse pod n hn hfin fun e he heq => ?_) hn hne
    -- a task of this lease is still there, or it is the one that ends
    obtain ⟨t', ht', rfl⟩ := List.mem_map.mp he
    obtain ⟨j, hj⟩ := List.mem_iff_getElem?.mp ht'
    by_cases hij : j = i
    · rw [hij, hi] at hj
      obtain rfl := Option.some.inj hj
      exact hne heq.symm
    · refine hno t'.key (List.mem_map_of_mem ?_) heq
      exact List.mem_eraseIdx_iff_getElem?.mpr ⟨j, hij, hj⟩
  · intro pod hpod
    obtain ⟨hne, hpod⟩ := Finset.mem_erase.mp hpod
    obtain ⟨n, hn, hfin⟩ := h.entry pod hpod
    refine ⟨n, hn, fun hin => ?_⟩
    obtain rfl | hin := Finset.mem_insert.mp hin
    · exact hne (huniq pod hn)
    · exact hfin hin

/-- A worker that is done becomes a task. -/
theorem Inv.spawnReturn (h : Inv s) {w : LeasedWorker × ℕ} (hi : s.workers[i]? = some w) {failworker : Bool} :
    Inv { s with
      workers := s.workers.eraseIdx i
      tasks := s.tasks ++ [{ pod := w.1, lease := w.2, failworker := failworker }] } := by
  refine ⟨h.last, h.finished, fun w' hw' => h.workers w' (List.mem_of_mem_eraseIdx hw'), ?_, ?_, h.entry⟩
  · intro e he
    rw [List.map_append] at he
    obtain he | he := List.mem_append.mp he
    · exact h.tasks e he
    · rw [List.mem_singleton.mp he]
      exact h.workers w (List.mem_of_getElem? hi)
  · intro pod n hn hfin hno
    rw [List.map_append] at hno
    exact h.inUse pod n hn hfin fun e he => hno e (List.mem_append_left _ he)

/-- **One input** keeps the invariant. -/
theorem Inv.next (h : Inv s) {c : Input} (hok : s.Orderly c) (hnext : s.next c = some s') : Inv s' := by
  cases c with
  | lease f =>
    obtain rfl := Option.some.inj hnext
    exact h.congr rfl rfl rfl rfl rfl rfl
  | grant i pod =>
    simp only [State.next] at hnext
    split at hnext
    next =>
      split at hnext
      next =>
        obtain rfl := Option.some.inj hnext
        exact h.congr rfl rfl rfl rfl rfl rfl
      next => cases hnext
    next => cases hnext
  | leaseFails i =>
    simp only [State.next] at hnext
    split at hnext
    next =>
      obtain rfl := Option.some.inj hnext
      exact h.congr rfl rfl rfl rfl rfl rfl
    next => cases hnext
  | leased i =>
    simp only [State.next] at hnext
    split at hnext
    next pod _ =>
      obtain rfl := Option.some.inj hnext
      exact h.leased pod _
    next => cases hnext
  | spawnReturn i failworker =>
    simp only [State.next] at hnext
    split at hnext
    next w hw =>
      obtain rfl := Option.some.inj hnext
      exact h.spawnReturn hw
    next => cases hnext
  | processReturn i =>
    simp only [State.next] at hnext
    split at hnext
    next t ht =>
      split at hnext
      next =>
        obtain rfl := Option.some.inj hnext
        exact h.congr rfl rfl (map_key_set ht rfl) rfl rfl rfl
      next => cases hnext
    next => cases hnext
  | returnFails i =>
    simp only [State.next] at hnext
    split at hnext
    next t ht =>
      split at hnext
      next => cases hnext
      next =>
        obtain rfl := Option.some.inj hnext
        exact h.congr rfl rfl (map_key_set ht (key_failed t)) rfl rfl rfl
    next => cases hnext
  | returned i =>
    simp only [State.next] at hnext
    split at hnext
    next t ht =>
      split at hnext
      next hstage =>
        obtain rfl := Option.some.inj hnext
        exact h.returned ht (hok t ht hstage) rfl
      next =>
        obtain rfl := Option.some.inj hnext
        exact h.congr rfl rfl (map_key_set ht rfl) rfl rfl rfl
      next => cases hnext
    next => cases hnext
  | cleanUp i =>
    simp only [State.next] at hnext
    split at hnext
    next t ht =>
      split at hnext
      next =>
        obtain rfl := Option.some.inj hnext
        exact h.cleanUp ht (hok t ht)
      next => cases hnext
    next => cases hnext
  | ready pod => exact h.movePod hnext
  | gone pod =>
    obtain rfl := Option.some.inj hnext
    exact h.congr rfl rfl rfl rfl rfl rfl
  | taken pod => exact h.movePod hnext
  | freed pod => exact h.movePod hnext

theorem Inv.toRemembers (h : Inv s) : s.Remembers := by
  constructor
  · rintro ⟨-, htasks⟩ pod
    refine ⟨h.entry pod, ?_⟩
    rintro ⟨n, hn, hfin⟩
    refine h.inUse pod n hn hfin fun e he => ?_
    rw [htasks] at he
    cases he
  · intro pod n hn hfin hno
    refine h.inUse pod n hn hfin fun e he => ?_
    obtain ⟨t, ht, rfl⟩ := List.mem_map.mp he
    exact hno t ht

/-- **The gateway remembers the pods it holds** in every run in which no return task
takes out the entry of a later lease of its pod. -/
theorem remembers (h : Reach State.next State.Fresh State.Orderly s) : s.Remembers :=
  (h.invariant (fun _ => Inv.fresh) fun _ _ _ hinv hok hnext => hinv.next hok hnext).toRemembers

end Invariant

/-! ## Two runs -/

instance (s : State) (t : ReturnTask) : Decidable (s.Ours t) :=
  inferInstanceAs (Decidable (_ ∨ _))

instance (s : State) : (c : Input) → Decidable (s.Orderly c)
  | .returned i =>
    decidable_of_iff (∀ t ∈ s.tasks[i]?, t.stage = .answered .ok → s.Ours t) Iff.rfl
  | .cleanUp i => decidable_of_iff (∀ t ∈ s.tasks[i]?, s.Ours t) Iff.rfl
  | .lease _ => .isTrue trivial
  | .grant _ _ => .isTrue trivial
  | .leaseFails _ => .isTrue trivial
  | .leased _ => .isTrue trivial
  | .spawnReturn _ _ => .isTrue trivial
  | .processReturn _ => .isTrue trivial
  | .returnFails _ => .isTrue trivial
  | .ready _ => .isTrue trivial
  | .gone _ => .isTrue trivial
  | .taken _ => .isTrue trivial
  | .freed _ => .isTrue trivial

/-- A function. -/
def llama : Func := { tenant := "acme", nameSpace := "prod", funcname := "llama", fprevision := 1 }

/-- A pod of it. -/
def pod7 : LeasedWorker := { func := llama, id := 7 }

/-- The pod is leased, returned, and leased again. -/
def inTurn : List Input :=
  [.ready pod7, .lease llama, .grant 0 pod7, .leased 0, .spawnReturn 0 false, .processReturn 0, .returned 0,
   .cleanUp 0, .lease llama, .grant 0 pod7, .leased 0]

theorem remembers_inTurn : ∃ s : State, s.Remembers ∧ s.Quiet ∧ s.last pod7 = some 1 ∧ pod7 ∈ s.connectReq := by
  have hrun : (exec State.next State.Orderly {} inTurn).map (fun s =>
      (s.calls, s.tasks, s.last pod7, decide (pod7 ∈ s.connectReq))) = some ([], [], some 1, true) := by
    decide +kernel
  obtain ⟨s, hs, heq⟩ := Option.map_eq_some_iff.mp hrun
  obtain ⟨hcalls, heq⟩ := Prod.mk.inj heq
  obtain ⟨htasks, heq⟩ := Prod.mk.inj heq
  obtain ⟨hlast, hmem⟩ := Prod.mk.inj heq
  have hreach : Reach State.next State.Fresh State.Orderly s :=
    .of_exec State.next State.Orderly (.init ⟨_, rfl⟩) hs
  exact ⟨s, remembers hreach, ⟨hcalls, htasks⟩, hlast, of_decide_eq_true hmem⟩

/-- The pod is leased again before the answer to its return arrives. -/
def overtaking : List Input :=
  [.ready pod7, .lease llama, .grant 0 pod7, .leased 0, .spawnReturn 0 false, .processReturn 0,
   .lease llama, .grant 0 pod7, .leased 0, .returned 0, .cleanUp 0]

/-- The return of the first lease takes out the entry of the second. -/
theorem later_lease_forgotten : ¬ ∀ s, Reach State.next State.Fresh (fun _ _ => True) s → s.Remembers := by
  intro h
  have hrun : (exec State.next (fun _ _ => True) {} overtaking).map (fun s =>
      (s.calls, s.tasks, s.last pod7, decide (1 ∈ s.finished), decide (pod7 ∈ s.connectReq))) =
      some ([], [], some 1, false, false) := by
    decide +kernel
  obtain ⟨s, hs, heq⟩ := Option.map_eq_some_iff.mp hrun
  obtain ⟨hcalls, heq⟩ := Prod.mk.inj heq
  obtain ⟨htasks, heq⟩ := Prod.mk.inj heq
  obtain ⟨hlast, heq⟩ := Prod.mk.inj heq
  obtain ⟨hfin, hmem⟩ := Prod.mk.inj heq
  have hreach : Reach State.next State.Fresh (fun _ _ => True) s :=
    .of_exec State.next _ (.init ⟨_, rfl⟩) hs
  have hexact := (h s hreach).exact ⟨hcalls, htasks⟩ pod7
  exact of_decide_eq_false hmem (hexact.mpr ⟨1, hlast, of_decide_eq_false hfin⟩)

end Inferx.Gateway.Leases
