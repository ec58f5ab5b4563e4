import Mathlib.Tactic.Common
import Inferx.Lib.Runs

/-!
# The queue of waiting requests

Requests of an agent wait in one queue, and the workers of the agent wait at it, each
in its own `WaitReq`. A request that finds the queue empty wakes one of them; one that
finds others there wakes nobody, since whoever has been woken for those is expected to
take it along. A worker only takes as many as it has free slots for, though, and
what it leaves behind has no wake-up of its own.

`Notify` stores at most one wake-up, when there is nobody to wake. A woken worker
that stops waiting before it has resumed hands its wake-up on.
-/

namespace Inferx.Gateway.ReqQueue

/-- `FuncClientReq`. -/
structure FuncClientReq where
  enqueueTime : ℕ
  timeout : ℕ
  deriving DecidableEq

/-- Where a worker is. -/
inductive WorkerPc where
  /-- not at the queue -/
  | outside
  /-- in `WaitReq`, about to look at the queue -/
  | looking
  /-- in `WaitReq`, has found the queue empty and does not wait yet -/
  | missed
  /-- in `WaitReq`, waiting to be woken -/
  | waiting
  /-- in `WaitReq`, woken and not resumed yet -/
  | woken
  /-- returned from `WaitReq`, about to receive -/
  | served
  deriving DecidableEq

/-- The worker is inside `WaitReq` and has found the queue empty. -/
def WorkerPc.isBlocked : WorkerPc → Bool
  | .missed | .waiting => true
  | _ => false

/-- The worker has been woken, or was never asleep, and will see what is queued. -/
def WorkerPc.isAwake : WorkerPc → Bool
  | .looking | .woken | .served => true
  | _ => false

/-- The queue, oldest request first, and the workers at it. -/
structure ClientReqQueue where
  reqQueue : List FuncClientReq := []
  queueLen : ℕ
  /-- a stored wake-up -/
  permit : Bool := false
  workers : List WorkerPc
  deriving DecidableEq

/-- What can happen next. `pick` is the worker a wake-up goes to. -/
inductive Input where
  | send (req : FuncClientReq) (pick : ℕ)
  | cleanTimeout (now : ℕ)
  | setQueueLen (n : ℕ)
  | tryRecvBatch (w cnt : ℕ)
  | waitReq (w : ℕ)
  | look (w : ℕ)
  | await (w : ℕ)
  | resume (w : ℕ)
  /-- the `select!` of the worker goes on with another branch -/
  | leave (w pick : ℕ)
  deriving DecidableEq

namespace ClientReqQueue

variable (s : ClientReqQueue)

/-- A worker moves on. -/
def goto (w : ℕ) (pc : WorkerPc) : ClientReqQueue := { s with workers := s.workers.set w pc }

/-- `notify_one`. -/
def notifyOne (pick : ℕ) : Option ClientReqQueue :=
  if s.workers[pick]? = some .waiting then some (s.goto pick .woken)
  else if .waiting ∈ s.workers then none
  else some { s with permit := true }

/-- `Send`: a full queue turns the request down. -/
def send (req : FuncClientReq) (pick : ℕ) : Option ClientReqQueue :=
  if s.queueLen ≤ s.reqQueue.length then some s
  else
    let s' := { s with reqQueue := s.reqQueue ++ [req] }
    if s'.reqQueue.length = 1 then s'.notifyOne pick else some s'

def cleanTimeout (now : ℕ) : ClientReqQueue :=
  { s with reqQueue := s.reqQueue.dropWhile fun r => r.timeout < now - r.enqueueTime }

def next : Input → Option ClientReqQueue
  | .send req pick => s.send req pick
  | .cleanTimeout now => some (s.cleanTimeout now)
  | .setQueueLen n => some { s with queueLen := n }
  | .tryRecvBatch w cnt =>
    -- a worker without a free slot skips the call, which is a batch of none
    match s.workers[w]? with
    | some .outside | some .served =>
      some ({ s with reqQueue := s.reqQueue.drop cnt }.goto w .outside)
    | _ => none
  | .waitReq w => if s.workers[w]? = some .outside then some (s.goto w .looking) else none
  | .look w =>
    if s.workers[w]? = some .looking then
      some (s.goto w (if s.reqQueue = [] then .missed else .served))
    else none
  | .await w =>
    if s.workers[w]? = some .missed then
      some (if s.permit then { s with permit := false }.goto w .looking else s.goto w .waiting)
    else none
  | .resume w => if s.workers[w]? = some .woken then some (s.goto w .looking) else none
  | .leave w pick =>
    match s.workers[w]? with
    | some .looking | some .missed | some .waiting => some (s.goto w .outside)
    | some .woken => (s.goto w .outside).notifyOne pick
    | _ => none

/-- Some workers, none of them at the queue. -/
def Started : Prop := ∃ n queueLen, s = { queueLen, workers := List.replicate n .outside }

/-- A wake-up is stored, or a worker other than `w` is awake. -/
def Covered (w : ℕ) : Prop :=
  s.permit = true ∨ ∃ v pc, v ≠ w ∧ s.workers[v]? = some pc ∧ pc.isAwake = true

/-- A worker waits although there are requests, and nobody is going to wake it. -/
def LostWakeup : Prop :=
  s.reqQueue ≠ [] ∧ (∃ pc ∈ s.workers, pc.isBlocked = true) ∧ s.permit = false ∧
    ∀ pc ∈ s.workers, pc.isAwake = false

instance : Decidable s.LostWakeup := inferInstanceAs (Decidable (_ ∧ _ ∧ _ ∧ _))

instance (w : ℕ) : Decidable (s.Covered w) :=
  decidable_of_iff (s.permit = true ∨
      ∃ v, v < s.workers.length ∧ v ≠ w ∧ s.workers[v]?.any WorkerPc.isAwake = true) <| by
    refine or_congr_right (exists_congr fun v => ?_)
    constructor
    · rintro ⟨-, hne, hv⟩
      obtain ⟨pc, hpc, hawake⟩ := (Option.any_eq_true _ _).mp hv
      exact ⟨pc, hne, hpc, hawake⟩
    · rintro ⟨pc, hne, hpc, hawake⟩
      exact ⟨(List.getElem?_eq_some_iff.mp hpc).1, hne, (Option.any_eq_true _ _).mpr ⟨pc, hpc, hawake⟩⟩

/-- No request is left behind: a worker that leaves requests in the queue, or stops waiting after
its wake-up, is not the last one awake while others wait. -/
def NoneLeft : Input → Prop
  | .tryRecvBatch w cnt =>
    s.reqQueue.length ≤ cnt ∨ (∀ pc ∈ s.workers, pc.isBlocked = false) ∨ s.Covered w
  | .leave w _ =>
    s.workers[w]? = some .looking →
      s.reqQueue = [] ∨ (∀ pc ∈ s.workers, pc.isBlocked = false) ∨ s.Covered w
  | _ => True

instance : ∀ i, Decidable (s.NoneLeft i)
  | .tryRecvBatch .. => inferInstanceAs (Decidable (_ ∨ _ ∨ _))
  | .leave .. => inferInstanceAs (Decidable (_ → _))
  | .send .. | .cleanTimeout _ | .setQueueLen _ | .waitReq _ | .look _ | .await _ | .resume _ =>
    .isTrue trivial

/-! ## Keeping wake-ups -/

/-- Every request has somebody who will see it, if anybody waits for one. -/
def Seen : Prop :=
  s.reqQueue ≠ [] → (∃ (w : ℕ) (pc : WorkerPc), s.workers[w]? = some pc ∧ pc.isBlocked = true) →
    s.permit = true ∨ ∃ (w : ℕ) (pc : WorkerPc), s.workers[w]? = some pc ∧ pc.isAwake = true

variable {s} {s' : ClientReqQueue} {w v pick : ℕ} {pc old : WorkerPc}

theorem get_goto (h : s.workers[w]? = some old) :
    (s.goto w pc).workers[v]? = if v = w then some pc else s.workers[v]? := by
  have hlt : w < s.workers.length := (List.getElem?_eq_some_iff.mp h).1
  unfold goto
  rw [List.getElem?_set]
  by_cases hv : w = v
  · rw [if_pos hv, if_pos hlt, if_pos hv.symm]
  · rw [if_neg hv, if_neg fun h => hv h.symm]

/-- Whoever is awake afterwards sees the requests. -/
theorem Seen.of_awake (h : s.workers[w]? = some pc) (hpc : pc.isAwake = true) : s.Seen :=
  fun _ _ => .inr ⟨w, pc, h, hpc⟩

theorem Seen.goto_awake (h : s.workers[w]? = some old) (hpc : pc.isAwake = true) :
    (s.goto w pc).Seen :=
  .of_awake ((get_goto h).trans (if_pos rfl)) hpc

/-- A worker that was not awake may go on waiting, or go away. -/
theorem Seen.goto_asleep (hs : s.Seen) (h : s.workers[w]? = some old) (hold : old.isAwake = false)
    (hpc : pc.isBlocked = true → old.isBlocked = true) : (s.goto w pc).Seen := by
  rintro hq ⟨v, p, hv, hp⟩
  have hblocked : ∃ (u : ℕ) (p' : WorkerPc), s.workers[u]? = some p' ∧ p'.isBlocked = true := by
    rw [get_goto h] at hv
    split at hv
    next =>
      obtain rfl := Option.some.inj hv
      exact ⟨w, old, h, hpc hp⟩
    next => exact ⟨v, p, hv, hp⟩
  refine (hs hq hblocked).imp_right fun ⟨u, p', hu, hp'⟩ => ⟨u, p', ?_, hp'⟩
  rw [get_goto h, if_neg]
  · exact hu
  · rintro rfl
    obtain rfl := Option.some.inj (h.symm.trans hu)
    rw [hold] at hp'
    cases hp'

/-- A worker that is not needed may go away. -/
theorem Seen.goto_outside (h : s.workers[w]? = some old)
    (hs : s.reqQueue = [] ∨ (∀ pc ∈ s.workers, pc.isBlocked = false) ∨ s.Covered w) :
    (s.goto w .outside).Seen := by
  rintro hq ⟨v, p, hv, hp⟩
  rcases hs with hempty | hnone | hpermit | ⟨u, p', hne, hu, hp'⟩
  · exact absurd hempty hq
  · rw [get_goto h] at hv
    split at hv
    next =>
      obtain rfl := Option.some.inj hv
      cases hp
    next =>
      rw [hnone p (List.mem_of_getElem? hv)] at hp
      cases hp
  · exact .inl hpermit
  · exact .inr ⟨u, p', (get_goto h).trans ((if_neg hne).trans hu), hp'⟩

/-- **A wake-up reaches somebody.** -/
theorem Seen.notifyOne (h : s.notifyOne pick = some s') : s'.Seen := by
  unfold ClientReqQueue.notifyOne at h
  split at h
  next hpick =>
    obtain rfl := Option.some.inj h
    exact .goto_awake hpick rfl
  next =>
    split at h
    next => cases h
    next =>
      obtain rfl := Option.some.inj h
      exact fun _ _ => .inl rfl

/-- Fewer requests need fewer wake-ups. -/
theorem Seen.fewer {l : List FuncClientReq} (hs : s.Seen) (hl : l ≠ [] → s.reqQueue ≠ []) :
    Seen { s with reqQueue := l } := fun hq hw => hs (hl hq) hw

theorem Seen.send {req : FuncClientReq} (hs : s.Seen) (h : s.send req pick = some s') : s'.Seen := by
  unfold ClientReqQueue.send at h
  split at h
  next =>
    obtain rfl := Option.some.inj h
    exact hs
  next =>
    dsimp only at h
    split at h
    next => exact .notifyOne h
    next hlen =>
      obtain rfl := Option.some.inj h
      refine hs.fewer fun _ hempty => hlen ?_
      rw [hempty]
      rfl

/-- **The step.** -/
theorem Seen.next {i : Input} (hs : s.Seen) (hok : s.NoneLeft i) (h : s.next i = some s') :
    s'.Seen := by
  unfold ClientReqQueue.next at h
  cases i with
  | send req pick => exact hs.send h
  | cleanTimeout now =>
    obtain rfl := Option.some.inj h
    refine hs.fewer fun hq hempty => hq ?_
    rw [hempty]
    rfl
  | setQueueLen n =>
    obtain rfl := Option.some.inj h
    exact hs
  | tryRecvBatch w cnt =>
    obtain ⟨old, hw⟩ : ∃ old, s.workers[w]? = some old := by
      rcases hw : s.workers[w]? with _ | old
      · simp only [hw] at h
        cases h
      · exact ⟨old, rfl⟩
    have hs' : Seen ({ s with reqQueue := s.reqQueue.drop cnt }.goto w .outside) := by
      refine .goto_outside (s := { s with reqQueue := s.reqQueue.drop cnt }) hw ?_
      exact hok.imp_left List.drop_eq_nil_iff.mpr
    simp only [hw] at h
    cases old <;> simp only [Option.some.injEq, reduceCtorEq] at h <;> exact h ▸ hs'
  | waitReq w =>
    dsimp only at h
    split at h
    next hw =>
      obtain rfl := Option.some.inj h
      exact .goto_awake hw rfl
    next => cases h
  | look w =>
    dsimp only at h
    split at h
    next hw =>
      obtain rfl := Option.some.inj h
      split
      next hempty => exact fun hq => absurd hempty hq
      next => exact .goto_awake hw rfl
    next => cases h
  | await w =>
    dsimp only at h
    split at h
    next hw =>
      obtain rfl := Option.some.inj h
      split
      next => exact .goto_awake (s := { s with permit := false }) hw rfl
      next => exact hs.goto_asleep hw rfl fun _ => rfl
    next => cases h
  | resume w =>
    dsimp only at h
    split at h
    next hw =>
      obtain rfl := Option.some.inj h
      exact .goto_awake hw rfl
    next => cases h
  | leave w pick =>
    rcases hw : s.workers[w]? with _ | old
    · simp only [hw] at h
      cases h
    · simp only [hw] at h
      cases old with
      | outside => cases h
      | served => cases h
      | looking =>
        obtain rfl := Option.some.inj h
        exact .goto_outside hw (hok hw)
      | missed =>
        obtain rfl := Option.some.inj h
        exact hs.goto_asleep hw rfl fun hb => (nomatch hb)
      | waiting =>
        obtain rfl := Option.some.inj h
        exact hs.goto_asleep hw rfl fun hb => (nomatch hb)
      | woken => exact .notifyOne h

/-- **No wake-up is lost** in a run that leaves no request behind. -/
theorem not_lostWakeup (h : Reach next Started NoneLeft s) : ¬ s.LostWakeup := by
  have hseen : s.Seen := h.invariant (I := Seen)
    (by
      rintro _ ⟨n, queueLen, rfl⟩ hq
      exact absurd rfl hq)
    fun _ _ _ hs hok hnext => hs.next hok hnext
  rintro ⟨hq, ⟨pc, hmem, hblocked⟩, hpermit, hasleep⟩
  obtain ⟨w, hw⟩ := List.mem_iff_getElem?.mp hmem
  rcases hseen hq ⟨w, pc, hw, hblocked⟩ with hp | ⟨v, p, hv, hawake⟩
  · rw [hpermit] at hp
    cases hp
  · rw [hasleep p (List.mem_of_getElem? hv)] at hawake
    cases hawake

/-! ### Runs -/

/-- Two workers wait at an empty queue, two requests come in, and the worker that the first one
wakes looks at the queue. -/
def twoWaiting : List Input :=
  [.waitReq 0, .look 0, .await 0, .waitReq 1, .look 1, .await 1, .send ⟨0, 1000⟩ 0, .send ⟨1, 1000⟩ 0,
    .resume 0, .look 0]

/-- It takes both. -/
theorem not_lostWakeup_batch : ∃ s, exec next NoneLeft
      { queueLen := 100, workers := List.replicate 2 .outside } (twoWaiting ++ [.tryRecvBatch 0 2])
      = some s ∧ ¬ s.LostWakeup := by
  have hrun : ((exec next NoneLeft { queueLen := 100, workers := List.replicate 2 .outside }
      (twoWaiting ++ [.tryRecvBatch 0 2])).any fun _ => true) = true := by decide +kernel
  obtain ⟨s, hs, -⟩ := (Option.any_eq_true _ _).mp hrun
  exact ⟨s, hs, not_lostWakeup (Reach.of_exec _ _ (.init ⟨2, 100, rfl⟩) hs)⟩

/-- It has a slot for one of them. -/
theorem lostWakeup_slot : ¬ ∀ s, Reach next Started (fun _ _ => True) s → ¬ s.LostWakeup := by
  intro h
  have hrun : ((exec next (fun _ _ => True) { queueLen := 100, workers := List.replicate 2 .outside }
      (twoWaiting ++ [.tryRecvBatch 0 1])).any fun s => decide s.LostWakeup) = true := by
    decide +kernel
  obtain ⟨s, hs, hlost⟩ := (Option.any_eq_true _ _).mp hrun
  exact h s (Reach.of_exec _ _ (.init ⟨2, 100, rfl⟩) hs) (of_decide_eq_true hlost)

end ClientReqQueue

end Inferx.Gateway.ReqQueue
