import Mathlib.Order.MinMax
import Mathlib.Data.List.TakeDrop
import Mathlib.Data.List.TakeWhile

/-!
# Expired requests

A request waits at most for its timeout, which is the smaller one of what the policy says
and what the caller asks for. `CleanTimeout` answers expired requests, beginning with
the oldest one, and stops at the first that is not expired. So an expired request that
came behind one with more time stays in the queue.
-/

namespace Inferx.Gateway.Expiry

/-- What a waiting request is answered instead of a client. -/
inductive Error where
  | timeout (ms : ℕ)
  | queueFull
  deriving DecidableEq

/-- `FuncClientReq`; the id tells whose receiver it is. -/
structure FuncClientReq where
  id : ℕ
  timeout : ℕ
  enqueueTime : ℕ
  deriving DecidableEq

/-- `enqueueTime.Elapsed() > timeout`. -/
def FuncClientReq.expired (r : FuncClientReq) (now : ℕ) : Bool := r.timeout < now - r.enqueueTime

/-- The queue, oldest request first, and what has been answered. -/
structure ClientReqQueue where
  reqQueue : List FuncClientReq := []
  queueLen : ℕ
  answers : List (FuncClientReq × Error) := []
  deriving DecidableEq

section Timeout

variable {Sec : Type} [LinearOrder Sec] (ms : Sec → ℕ)

/-- The timeout of a request: `X-Inferx-Timeout` counts when it can be read and is smaller than the
policy's. -/
def requestTimeout (policy : Sec) (header : Option Sec) : ℕ :=
  match header with
  | none => ms policy
  | some t => ms (min policy t)

/-- What happens at the queue. -/
inductive Input (Sec : Type) where
  | send (id enqueueTime : ℕ) (policy : Sec) (header : Option Sec)
  | tryRecvBatch (cnt : ℕ)
  | cleanTimeout (now : ℕ)
  /-- `UpdatePolicy` -/
  | setQueueLen (queueLen : ℕ)

end Timeout

namespace ClientReqQueue

/-- The loop of `CleanTimeout`. -/
def cleanTimeoutLoop (now : ℕ) :
    List FuncClientReq → List (FuncClientReq × Error) → ℕ →
      ℕ × List FuncClientReq × List (FuncClientReq × Error)
  | [], answers, count => (count, [], answers)
  | first :: q, answers, count =>
    if first.expired now then
      cleanTimeoutLoop now q (answers ++ [(first, .timeout first.timeout)]) (count + 1)
    else (count, first :: q, answers)

variable (s : ClientReqQueue)

/-- `CleanTimeout`: how many requests have been answered, and the queue. -/
def cleanTimeout (now : ℕ) : ℕ × ClientReqQueue :=
  let (count, reqQueue, answers) := cleanTimeoutLoop now s.reqQueue s.answers 0
  (count, { s with reqQueue, answers })

/-- `Send`: a full queue turns the request down. -/
def send (req : FuncClientReq) : ClientReqQueue :=
  if s.queueLen ≤ s.reqQueue.length then { s with answers := s.answers ++ [(req, .queueFull)] }
  else { s with reqQueue := s.reqQueue ++ [req] }

/-- `TryRecvBatch`: the requests, and the queue. -/
def tryRecvBatch (cnt : ℕ) : List FuncClientReq × ClientReqQueue :=
  (s.reqQueue.take cnt, { s with reqQueue := s.reqQueue.drop cnt })

section Run

variable {Sec : Type} [LinearOrder Sec] (ms : Sec → ℕ)

def next : Input Sec → ClientReqQueue
  | .send id enqueueTime policy header => s.send ⟨id, requestTimeout ms policy header, enqueueTime⟩
  | .tryRecvBatch cnt => (s.tryRecvBatch cnt).2
  | .cleanTimeout now => (s.cleanTimeout now).2
  | .setQueueLen queueLen => { s with queueLen }

/-- The queue after some inputs. -/
def run (queueLen : ℕ) (inputs : List (Input Sec)) : ClientReqQueue :=
  inputs.foldl (fun s i => s.next ms i) { queueLen }

end Run

/-- **Nothing lingers**: the expired requests are answered and counted, the others stay in order. -/
structure Cleaned (now : ℕ) : Prop where
  /-- no request is left whose time is up -/
  left : ∀ r ∈ (s.cleanTimeout now).2.reqQueue, r.expired now = false
  /-- the others are left, in their order -/
  order : (s.cleanTimeout now).2.reqQueue = s.reqQueue.filter fun r => !r.expired now
  /-- the expired ones are answered -/
  answered : (s.cleanTimeout now).2.answers =
    s.answers ++ (s.reqQueue.filter fun r => r.expired now).map fun r => (r, .timeout r.timeout)
  /-- and counted -/
  counted : (s.cleanTimeout now).1 = s.reqQueue.countP fun r => r.expired now

/-- No expired request is behind one that is not expired. -/
def OldestExpireFirst (now : ℕ) : Prop :=
  s.reqQueue.Pairwise fun older newer => newer.expired now = true → older.expired now = true

/-! ## What is cleaned -/

theorem cleanTimeoutLoop_eq {now : ℕ} {q : List FuncClientReq} {answers : List (FuncClientReq × Error)}
    {count : ℕ} : cleanTimeoutLoop now q answers count =
      (count + (q.takeWhile fun r => r.expired now).length, q.dropWhile fun r => r.expired now,
        answers ++ (q.takeWhile fun r => r.expired now).map fun r => (r, .timeout r.timeout)) := by
  induction q generalizing answers count with
  | nil => simp [cleanTimeoutLoop]
  | cons first q ih =>
    unfold cleanTimeoutLoop
    by_cases h : first.expired now = true
    · rw [if_pos h, ih]
      simp [h, Nat.add_assoc, Nat.add_comm 1]
    · rw [if_neg h]
      simp [h]

/-- **What `CleanTimeout` does**: it takes the expired requests at the old end. -/
theorem cleanTimeout_eq {now : ℕ} : s.cleanTimeout now =
    ((s.reqQueue.takeWhile fun r => r.expired now).length,
      { s with
        reqQueue := s.reqQueue.dropWhile fun r => r.expired now
        answers := s.answers ++
          (s.reqQueue.takeWhile fun r => r.expired now).map fun r => (r, .timeout r.timeout) }) := by
  unfold cleanTimeout
  rw [cleanTimeoutLoop_eq, Nat.zero_add]

/-- Of a list in which nothing with the property comes behind something without it, a prefix has
the property. -/
theorem takeWhile_dropWhile_eq_filter {α : Type} {p : α → Bool} {l : List α}
    (h : l.Pairwise fun a b => p b = true → p a = true) :
    l.takeWhile p = l.filter p ∧ l.dropWhile p = l.filter fun a => !p a := by
  induction l with
  | nil => exact ⟨rfl, rfl⟩
  | cons a l ih =>
    obtain ⟨hfirst, hrest⟩ := List.pairwise_cons.mp h
    obtain ⟨htake, hdrop⟩ := ih hrest
    by_cases ha : p a = true
    · simp [ha, htake, hdrop]
    · have hnone : ∀ b ∈ l, p b = false := fun b hb => Bool.eq_false_iff.mpr fun hpb => ha (hfirst b hb hpb)
      have hfilter : l.filter p = [] := List.filter_eq_nil_iff.mpr fun b hb => by simp [hnone b hb]
      have hall : (l.filter fun b => !p b) = l := List.filter_eq_self.mpr fun b hb => by simp [hnone b hb]
      simp [ha, hfilter, hall]

variable {s}

/-- **When does nothing linger?** -/
theorem cleaned_iff_oldest {now : ℕ} : s.Cleaned now ↔ s.OldestExpireFirst now := by
  have heq : s.cleanTimeout now = _ := s.cleanTimeout_eq
  constructor
  · intro h
    have hleft := h.left
    rw [heq] at hleft
    unfold OldestExpireFirst
    rw [← List.takeWhile_append_dropWhile (p := fun r => r.expired now) (l := s.reqQueue)]
    -- what has been taken is expired, what is left is not
    have htaken : ∀ a ∈ s.reqQueue.takeWhile fun r => r.expired now, a.expired now = true :=
      fun a ha => List.mem_takeWhile_imp (p := fun r : FuncClientReq => r.expired now) ha
    refine List.pairwise_append.mpr ⟨?_, ?_, fun a ha b hb _ => htaken a ha⟩
    · exact List.pairwise_of_forall_mem_list fun a ha b hb _ => htaken a ha
    · refine List.pairwise_of_forall_mem_list fun a ha b hb hexpired => ?_
      rw [hleft b hb] at hexpired
      cases hexpired
  · intro h
    obtain ⟨htake, hdrop⟩ := takeWhile_dropWhile_eq_filter (p := fun r : FuncClientReq => r.expired now) h
    rw [htake, hdrop] at heq
    refine ⟨fun r hr => ?_, ?_, ?_, ?_⟩
    · rw [heq] at hr
      simpa using (List.mem_filter.mp hr).2
    · rw [heq]
    · rw [heq]
    · rw [heq, List.countP_eq_length_filter]

section Run

variable {Sec : Type} [LinearOrder Sec] {ms : Sec → ℕ}

/-- **Expired requests do not linger** exactly when none is behind a live one, after any inputs. -/
theorem cleaned_iff (ms : Sec → ℕ) (queueLen : ℕ) (inputs : List (Input Sec)) (now : ℕ) :
    (run ms queueLen inputs).Cleaned now ↔ (run ms queueLen inputs).OldestExpireFirst now :=
  cleaned_iff_oldest

/-- A caller that asks for one second comes behind one that does not ask. -/
theorem short_lingers : ¬ ∀ (queueLen : ℕ) (inputs : List (Input ℕ)) (now : ℕ),
    (run (· * 1000) queueLen inputs).Cleaned now := by
  intro h
  have hleft := (h 100 [.send 0 0 30 none, .send 1 0 30 (some 1)] 2000).left ⟨1, 1000, 0⟩ (by decide)
  exact absurd hleft (by decide)

end Run

end ClientReqQueue

end Inferx.Gateway.Expiry
