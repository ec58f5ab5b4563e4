import Mathlib
import Inferx.Lib.Map
import Inferx.Lib.Strs

/-!
# The store of agent sessions

A session has two lists of messages: the transcript, which clients see and to which
messages are only added, and the context, which is sent to the model and which a summary
may take the place of. Beside the sessions the store keeps a mutex for each session and the
token that cancels the stream of each session.

What a summary takes the place of is found by a walk from the newest message on.
`isGreatest_tail` says what it finds: the tail is the longest one that is within the budget or
has no more than two messages.
-/

namespace Inferx.Sessions

/-- `Uuid::new_v4`: a number that is drawn once. -/
abbrev Uuid : Type := ℕ

/-- A part of a message that clients see. -/
inductive Part where
  | text (text : String)
  | compaction (summary : String)
  deriving DecidableEq

/-- A message. -/
structure Message where
  id : Uuid
  role : String
  content : String
  /-- in milliseconds -/
  createdAt : ℤ
  parts : List Part
  deriving DecidableEq

/-- A session. -/
structure Session where
  id : Uuid
  tenant : String
  createdAt : ℤ
  updatedAt : ℤ
  /-- the transcript -/
  messages : List Message
  /-- the context -/
  modelMessages : List Message
  skillApiKey : String
  lastPromptTokens : ℕ
  agentEndpoint : String

/-- `SessionStore`, and which cancellation tokens have been cancelled. -/
structure SessionStore where
  sessions : BTreeMap Uuid Session
  sessionLocks : BTreeMap Uuid ℕ
  activeStreamCancels : BTreeMap Uuid ℕ
  cancelled : List ℕ

/-- `SessionStore::New`. -/
def SessionStore.new : SessionStore where
  sessions := ∅
  sessionLocks := ∅
  activeStreamCancels := ∅
  cancelled := []

namespace SessionStore

/-- `CreateSession`, with the id that is drawn. -/
def createSession (id : Uuid) (now : ℤ) (tenant skillApiKey agentEndpoint : String) (s : SessionStore) :
    Session × SessionStore :=
  let session : Session :=
    { id, tenant, createdAt := now, updatedAt := now, messages := [], modelMessages := [],
      skillApiKey, lastPromptTokens := 0, agentEndpoint }
  (session, { s with sessions := s.sessions.insert id session })

/-- `GetSession` -/
def getSession (id : Uuid) (s : SessionStore) : Option Session := s.sessions[id]?

/-- `SessionLock`, with the mutex that is made if there is none. -/
def sessionLock (made : ℕ) (id : Uuid) (s : SessionStore) : ℕ × SessionStore :=
  match s.sessionLocks[id]? with
  | some lock => (lock, s)
  | none => (made, { s with sessionLocks := s.sessionLocks.insert id made })

/-- `remove_session_lock` -/
def removeSessionLock (id : Uuid) (s : SessionStore) : SessionStore :=
  { s with sessionLocks := s.sessionLocks.erase id }

/-- `clear_active_stream_cancel` -/
def clearActiveStreamCancel (id : Uuid) (s : SessionStore) : SessionStore :=
  match s.activeStreamCancels[id]? with
  | some token =>
    { s with
      activeStreamCancels := s.activeStreamCancels.erase id
      cancelled := token :: s.cancelled }
  | none => s

/-- `register_active_stream_cancel` -/
def registerActiveStreamCancel (id : Uuid) (token : ℕ) (s : SessionStore) : SessionStore :=
  { s with activeStreamCancels := s.activeStreamCancels.insert id token }

/-- `interrupt_active_stream` -/
def interruptActiveStream (id : Uuid) (s : SessionStore) : Bool × SessionStore :=
  match s.activeStreamCancels[id]? with
  | some token => (true, { s with cancelled := token :: s.cancelled })
  | none => (false, s)

/-- `ReplaceModelMessagesWithSummary`, with the id of the summary. -/
def replaceModelMessagesWithSummary (id made : Uuid) (now : ℤ) (summary : String) (tail : List Message)
    (s : SessionStore) : SessionStore :=
  { s with
    sessions := s.sessions.modify id fun x =>
      { x with
        modelMessages :=
          { id := made, role := "system", content := summary, createdAt := now, parts := [] } :: tail
        lastPromptTokens := 0
        updatedAt := now } }

/-- `AppendCompactionMarker`, with the id of the marker. -/
def appendCompactionMarker (id made : Uuid) (now : ℤ) (summary : String) (s : SessionStore) :
    SessionStore :=
  { s with
    sessions := s.sessions.modify id fun x =>
      { x with
        messages := x.messages ++
          [{ id := made, role := "compaction", content := "", createdAt := now,
             parts := [.compaction summary] }]
        updatedAt := now } }

/-- `AddMessage` -/
def addMessage (id : Uuid) (now : ℤ) (message : Message) (s : SessionStore) : SessionStore :=
  { s with
    sessions := s.sessions.modify id fun x =>
      { x with
        messages := x.messages ++ [message]
        modelMessages := x.modelMessages ++ [message]
        updatedAt := now } }

/-- What `CheckAndDeleteIfTimedOut` and `DeleteSession` do to the map of sessions. -/
def dropSession (id : Uuid) (s : SessionStore) : SessionStore := { s with sessions := s.sessions.erase id }

section Tokens

variable (s : SessionStore) (id : Uuid)

@[simp] theorem sessions_clearActiveStreamCancel :
    (s.clearActiveStreamCancel id).sessions = s.sessions := by
  unfold clearActiveStreamCancel
  split <;> rfl

@[simp] theorem sessionLocks_clearActiveStreamCancel :
    (s.clearActiveStreamCancel id).sessionLocks = s.sessionLocks := by
  unfold clearActiveStreamCancel
  split <;> rfl

theorem activeStreamCancels_clearActiveStreamCancel :
    (s.clearActiveStreamCancel id).activeStreamCancels = s.activeStreamCancels.erase id := by
  unfold clearActiveStreamCancel
  split
  next => rfl
  next hnone => exact (BTreeMap.erase_eq_self hnone).symm

/-- What is cancelled after one token is cleared. -/
theorem mem_cancelled_clearActiveStreamCancel {token : ℕ} :
    token ∈ (s.clearActiveStreamCancel id).cancelled ↔
      token ∈ s.cancelled ∨ s.activeStreamCancels[id]? = some token := by
  unfold clearActiveStreamCancel
  split
  next t ht => simp [ht, or_comm, eq_comm]
  next hnone => simp [hnone]

end Tokens

end SessionStore

/-! ## What a summary takes the place of -/

/-- `COMPACTION_MIN_TAIL` -/
def compactionMinTail : ℕ := 2

/-- `estimate_serialized_tokens` of what takes some bytes. -/
def estimateTokens (bytes : ℕ) : ℕ := (bytes + 3) / 4

section Cut

variable (estimate : Message → ℕ) (budget : ℕ)

/-- The walk of `compact_session`, newest message first: how many messages are kept, after
`kept` messages with `acc` tokens. -/
def keptFrom (kept acc : ℕ) : List Message → ℕ
  | [] => kept
  | m :: older =>
    if budget < acc + estimate m ∧ compactionMinTail < kept + 1 then kept
    else keptFrom (kept + 1) (acc + estimate m) older

/-- Where the tail starts. -/
def tailStart (messages : List Message) : ℕ :=
  messages.length - keptFrom estimate budget 0 0 messages.reverse

/-- The tokens of the last `n` messages. -/
def lastTokens (messages : List Message) (n : ℕ) : ℕ :=
  ((messages.drop (messages.length - n)).map estimate).sum

/-- The last `n` messages may be kept. -/
def MayKeep (messages : List Message) (n : ℕ) : Prop :=
  n ≤ messages.length ∧ (n ≤ compactionMinTail ∨ lastTokens estimate messages n ≤ budget)

variable {estimate budget}

theorem lastTokens_reverse (l : List Message) (n : ℕ) :
    lastTokens estimate l.reverse n = ((l.take n).map estimate).sum := by
  unfold lastTokens
  rw [List.length_reverse, ← List.reverse_take, List.map_reverse, List.sum_reverse]

/-- What the walk keeps of `l` after what it has kept already. -/
theorem keptFrom_spec (kept acc : ℕ) (l : List Message) : ∃ n ≤ l.length,
    keptFrom estimate budget kept acc l = kept + n ∧
      (kept + n ≤ compactionMinTail ∨ acc + ((l.take n).map estimate).sum ≤ budget ∨ n = 0) ∧
      (n < l.length → compactionMinTail < kept + n + 1 ∧
        budget < acc + ((l.take (n + 1)).map estimate).sum) := by
  induction l generalizing kept acc with
  | nil => exact ⟨0, le_rfl, rfl, .inr (.inr rfl), fun h => absurd h (Nat.lt_irrefl 0)⟩
  | cons m older ih =>
    unfold keptFrom
    split
    next h => exact ⟨0, Nat.zero_le _, rfl, .inr (.inr rfl), fun _ => ⟨h.2, by simpa using h.1⟩⟩
    next h =>
      obtain ⟨n, hn, hkept, hfit, hmore⟩ := ih (kept + 1) (acc + estimate m)
      refine ⟨n + 1, Nat.succ_le_succ hn, by rw [hkept]; omega, ?_, fun hlt => ?_⟩
      · rw [List.take_succ_cons, List.map_cons, List.sum_cons]
        rcases hfit with hfit | hfit | rfl
        · exact .inl (by omega)
        · exact .inr (.inl (by omega))
        · -- only the newest one is kept, as it fits or has to be
          rcases not_and_or.mp h with h | h
          · exact .inr (.inl (by simp; omega))
          · exact .inl (by omega)
      · obtain ⟨hmin, hover⟩ := hmore (Nat.lt_of_succ_lt_succ hlt)
        rw [List.take_succ_cons, List.map_cons, List.sum_cons]
        omega

/-- The last two messages are kept, or all if there are fewer. -/
theorem tailStart_le (messages : List Message) :
    tailStart estimate budget messages + min compactionMinTail messages.length ≤ messages.length := by
  obtain ⟨n, hn, hkept, -, hmore⟩ :=
    @keptFrom_spec estimate budget 0 0 messages.reverse
  rw [List.length_reverse] at hn hmore
  have hmin : min compactionMinTail messages.length ≤ n := by
    rcases Nat.lt_or_ge n messages.length with hlt | hge
    · have h := (hmore hlt).1
      omega
    · omega
  simp only [tailStart, hkept]
  omega

/-- **The tail is the longest one that may be kept.** -/
theorem isGreatest_tail (messages : List Message) :
    IsGreatest {n | MayKeep estimate budget messages n}
      (messages.length - tailStart estimate budget messages) := by
  obtain ⟨n, hn, hkept, hfit, hmore⟩ :=
    @keptFrom_spec estimate budget 0 0 messages.reverse
  rw [List.length_reverse] at hn hmore
  have hlast : ∀ k, lastTokens estimate messages k = ((messages.reverse.take k).map estimate).sum := by
    intro k
    rw [← lastTokens_reverse, List.reverse_reverse]
  have htail : messages.length - tailStart estimate budget messages = n := by
    unfold tailStart
    omega
  rw [htail]
  refine ⟨⟨hn, ?_⟩, fun k ⟨hk, hfits⟩ => ?_⟩
  · rw [hlast]
    rcases hfit with hfit | hfit | rfl
    · exact .inl (by omega)
    · exact .inr (by omega)
    · exact .inl (Nat.zero_le _)
  · by_contra hlt
    obtain ⟨hmin, hover⟩ := hmore (by omega)
    rcases hfits with hfits | hfits
    · omega
    · rw [hlast] at hfits
      have hsub : ((messages.reverse.take (n + 1)).map estimate).sum ≤
          ((messages.reverse.take k).map estimate).sum := by
        have htake : messages.reverse.take (n + 1) = (messages.reverse.take k).take (n + 1) := by
          rw [List.take_take, Nat.min_eq_left (by omega)]
        rw [htake]
        exact ((List.take_sublist _ _).map estimate).sum_le_sum fun _ _ => Nat.zero_le _
      omega

end Cut

end Inferx.Sessions
