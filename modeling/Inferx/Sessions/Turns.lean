import Mathlib.Logic.Relation
import Inferx.Sessions.Store

/-!
# Turns

The accesses of the session handlers to the mutexes, the cancellation tokens and the contexts of
the sessions, in any order. A streamed prompt takes the mutex of its session, adds its message,
registers its token, may compact the context and sends its first call; what it writes after
that may be anything. Its turn ends with the mutex given back and the token cleared, in this
order or, where there is no answer, in the other. A thread whose client goes away gives its mutex
back and clears nothing. A session that is deleted or timed out is taken away first, its mutex
after it and its token last. Prompts that are not streamed write without a mutex: `free` says
whether there are any.
-/

namespace Inferx.Sessions

/-! ## Steps -/

def SessionStore.edit (id : Uuid) (f : Session → Session) (s : SessionStore) : SessionStore :=
  { s with sessions := s.sessions.modify id f }

/-- What the threads share. -/
structure Shared where
  store : SessionStore
  /-- the threads that have mutexes -/
  owner : BTreeMap ℕ ℕ
  /-- what is drawn next -/
  fresh : ℕ
  /-- the prompts, with the contexts of their first calls, or none if the session is gone -/
  sent : List (Message × Option (List Message))

/-- The context of a session, empty if there is none. -/
def Shared.context (s : Shared) (id : Uuid) : List Message :=
  ((s.store.getSession id).map Session.modelMessages).getD []

/-- Where a thread is. -/
inductive Place where
  /-- a streamed prompt for a session that has been found -/
  | asks (id : Uuid)
  /-- it has the session's mutex to wait for -/
  | waits (id : Uuid) (lock : ℕ)
  | holds (id : Uuid) (lock : ℕ)
  /-- its message is added -/
  | added (id : Uuid) (lock : ℕ) (m : Message)
  /-- its token is registered -/
  | opens (id : Uuid) (lock token : ℕ) (m : Message)
  /-- it compacts a context that it has read -/
  | compacts (id : Uuid) (lock token : ℕ) (m : Message) (read : List Message)
  /-- its first call is sent -/
  | runs (id : Uuid) (lock token : ℕ)
  /-- the token is cleared, the mutex not given back -/
  | cleared (lock : ℕ)
  /-- a session that is taken away, with its mutex -/
  | forgets (id : Uuid)
  /-- the token remains to be cleared -/
  | clears (id : Uuid)
  | done

/-- The mutex that a thread has. -/
def Place.lock : Place → Option ℕ
  | holds _ lock | added _ lock _ | opens _ lock _ _ | compacts _ lock _ _ _ | runs _ lock _ | cleared lock =>
    some lock
  | _ => none

/-- The session and the token of a turn that runs. -/
def Place.turn : Place → Option (Uuid × ℕ)
  | opens id _ token _ | compacts id _ token _ _ | runs id _ token => some (id, token)
  | _ => none

/-- A step of thread `τ`. -/
inductive Act (τ : ℕ) (s : Shared) : Place → Place → Shared → Prop where
  /-- `SessionLock` -/
  | mutex {id : Uuid} : Act τ s (.asks id) (.waits id (s.store.sessionLock s.fresh id).1)
      { s with store := (s.store.sessionLock s.fresh id).2, fresh := s.fresh + 1 }
  /-- `lock_owned` -/
  | take {id : Uuid} {lock : ℕ} : s.owner[lock]? = none →
      Act τ s (.waits id lock) (.holds id lock) { s with owner := s.owner.insert lock τ }
  /-- `AddMessage` -/
  | add {id : Uuid} {lock : ℕ} (now : ℤ) (m : Message) : Act τ s (.holds id lock) (.added id lock m)
      { s with store := s.store.addMessage id now m }
  /-- `register_active_stream_cancel` -/
  | register {id : Uuid} {lock : ℕ} {m : Message} : Act τ s (.added id lock m) (.opens id lock s.fresh m)
      { s with store := s.store.registerActiveStreamCancel id s.fresh, fresh := s.fresh + 1 }
  /-- `compact_session` reads the context -/
  | read {id : Uuid} {lock token : ℕ} {m : Message} :
      Act τ s (.opens id lock token m) (.compacts id lock token m (s.context id)) s
  /-- and changes nothing -/
  | keep {id : Uuid} {lock token : ℕ} {m : Message} {read : List Message} :
      Act τ s (.compacts id lock token m read) (.opens id lock token m) s
  /-- or replaces what it has read -/
  | replace {id : Uuid} {lock token : ℕ} {m : Message} {read : List Message} (made : Uuid) (now : ℤ)
      (summary : String) (estimate : Message → ℕ) (budget : ℕ) :
      Act τ s (.compacts id lock token m read) (.opens id lock token m)
        { s with
          store := s.store.replaceModelMessagesWithSummary id made now summary
            (read.drop (tailStart estimate budget read)) }
  /-- and leaves a marker -/
  | mark {id : Uuid} {lock token : ℕ} {m : Message} (made : Uuid) (now : ℤ) (summary : String) :
      Act τ s (.opens id lock token m) (.opens id lock token m)
        { s with store := s.store.appendCompactionMarker id made now summary }
  /-- the first call -/
  | send {id : Uuid} {lock token : ℕ} {m : Message} : Act τ s (.opens id lock token m) (.runs id lock token)
      { s with sent := (m, (s.store.getSession id).map Session.modelMessages) :: s.sent }
  /-- whatever the turn writes to its session then -/
  | write {id : Uuid} {lock token : ℕ} (f : Session → Session) :
      Act τ s (.runs id lock token) (.runs id lock token) { s with store := s.store.edit id f }
  /-- the guard is dropped -/
  | release {id : Uuid} {lock token : ℕ} : Act τ s (.runs id lock token) (.clears id)
      { s with owner := s.owner.erase lock }
  /-- `clear_active_stream_cancel` -/
  | clear {id : Uuid} : Act τ s (.clears id) .done { s with store := s.store.clearActiveStreamCancel id }
  /-- or the token is cleared first -/
  | clearFirst {id : Uuid} {lock token : ℕ} : Act τ s (.runs id lock token) (.cleared lock)
      { s with store := s.store.clearActiveStreamCancel id }
  /-- a thread ends, or is dropped with its guard -/
  | leave {p : Place} {lock : ℕ} : p.lock = some lock → Act τ s p .done { s with owner := s.owner.erase lock }
  /-- `remove_session_lock` -/
  | removeLock {id : Uuid} : Act τ s (.forgets id) (.clears id)
      { s with store := s.store.removeSessionLock id }

/-- A step of nobody's turn. -/
inductive Other (free : Bool) (s : Shared) : Shared → Prop where
  | create (now : ℤ) (tenant key endpoint : String) : Other free s
      { s with store := (s.store.createSession s.fresh now tenant key endpoint).2, fresh := s.fresh + 1 }
  | interrupt (id : Uuid) : Other free s { s with store := (s.store.interruptActiveStream id).2 }
  /-- a write of a prompt that is not streamed -/
  | write (id : Uuid) (f : Session → Session) : free = true → Other free s { s with store := s.store.edit id f }

/-- What is shared, and where the threads are. -/
structure Threads where
  shared : Shared
  places : List Place

inductive Step (free : Bool) : Threads → Threads → Prop where
  | prompt {s : Shared} {l : List Place} {id : Uuid} {x : Session} : s.store.sessions[id]? = some x →
      Step free ⟨s, l⟩ ⟨s, l ++ [.asks id]⟩
  /-- a session is deleted or timed out -/
  | drop {s : Shared} {l : List Place} {id : Uuid} {x : Session} : s.store.sessions[id]? = some x →
      Step free ⟨s, l⟩ ⟨{ s with store := s.store.dropSession id }, l ++ [.forgets id]⟩
  | act {s s' : Shared} {l : List Place} {τ : ℕ} {p p' : Place} : l[τ]? = some p → Act τ s p p' s' →
      Step free ⟨s, l⟩ ⟨s', l.set τ p'⟩
  | other {s s' : Shared} {l : List Place} : Other free s s' → Step free ⟨s, l⟩ ⟨s', l⟩

def Reaches (free : Bool) : Threads → Prop :=
  Relation.ReflTransGen (Step free) ⟨{ store := .new, owner := ∅, fresh := 0, sent := [] }, []⟩

/-! ## What a thread knows -/

section Knowledge

variable (free : Bool) (s : Shared)

/-- The mutex of the session, while it lives. -/
def LockOf (id : Uuid) (lock : ℕ) : Prop :=
  id < s.fresh ∧ ∀ x : Session, s.store.sessions[id]? = some x → s.store.sessionLocks[id]? = some lock

/-- The thread has the mutex of the session. -/
def Has (τ : ℕ) (id : Uuid) (lock : ℕ) : Prop := s.owner[lock]? = some τ ∧ LockOf s id lock

/-- The token can be cancelled or has been, while the session lives. -/
def Cancellable (id : Uuid) (token : ℕ) : Prop := ∀ x : Session, s.store.sessions[id]? = some x →
  s.store.activeStreamCancels[id]? = some token ∨ token ∈ s.store.cancelled

/-- The last message of the context, while the session lives and all prompts are streamed. -/
def Last (id : Uuid) (m : Message) : Prop := free = false → ∀ x : Session,
  s.store.sessions[id]? = some x → x.modelMessages.getLast? = some m

/-- What holds of a thread where it is. -/
def Fits (τ : ℕ) : Place → Prop
  | .asks id => id < s.fresh
  | .waits id lock => LockOf s id lock
  | .holds id lock => Has s τ id lock
  | .added id lock m => Has s τ id lock ∧ Last free s id m
  | .opens id lock token m => Has s τ id lock ∧ Cancellable s id token ∧ Last free s id m
  | .compacts id lock token m read => Has s τ id lock ∧ Cancellable s id token ∧ Last free s id m ∧
      (free = false → ∀ x : Session, s.store.sessions[id]? = some x → read.getLast? = some m)
  | .runs id lock token => Has s τ id lock ∧ Cancellable s id token
  | .cleared lock => s.owner[lock]? = some τ
  | .forgets id => id < s.fresh ∧ s.store.sessions[id]? = none
  | _ => True

/-- What holds of what is shared. -/
structure Base : Prop where
  drawn : ∀ (id : Uuid) (x : Session), s.store.sessions[id]? = some x → id < s.fresh
  sent : free = false → ∀ e ∈ s.sent, ∀ context, e.2 = some context → context.getLast? = some e.1

/-- What the other threads see of a step of thread `τ`. -/
structure Frame (τ : ℕ) (s s' : Shared) : Prop where
  fresh : s.fresh ≤ s'.fresh
  /-- no session comes back -/
  gone : ∀ id : Uuid, id < s.fresh → s.store.sessions[id]? = none → s'.store.sessions[id]? = none
  owner : ∀ τ' lock : ℕ, τ' ≠ τ → s.owner[lock]? = some τ' → s'.owner[lock]? = some τ'
  /-- a session keeps its mutex while it lives -/
  locks : ∀ (id : Uuid) (lock : ℕ) (x : Session), s.store.sessionLocks[id]? = some lock →
    s'.store.sessions[id]? = some x → s'.store.sessionLocks[id]? = some lock
  tokens : ∀ (τ' : ℕ) (id : Uuid) (lock token : ℕ), τ' ≠ τ → Has s τ' id lock → Cancellable s id token →
    Cancellable s' id token
  /-- nobody writes to a session whose mutex another thread has -/
  kept : free = false → ∀ (τ' : ℕ) (id : Uuid) (lock : ℕ) (x : Session), τ' ≠ τ → Has s τ' id lock →
    s'.store.sessions[id]? = some x → ∃ y : Session, s.store.sessions[id]? = some y ∧
      y.modelMessages = x.modelMessages

end Knowledge

section Frames

variable {free : Bool} {s s' : Shared} {τ τ' : ℕ} {id : Uuid} {lock token : ℕ} {m : Message} {p : Place}

theorem Frame.refl : Frame free τ s s where
  fresh := Nat.le_refl _
  gone _ _ h := h
  owner _ _ _ h := h
  locks _ _ _ h _ := h
  tokens _ _ _ _ _ _ h := h
  kept _ _ _ _ x _ _ hx := ⟨x, hx, rfl⟩

theorem Frame.lived {x : Session} (h : Frame free τ s s') (hid : id < s.fresh)
    (hx : s'.store.sessions[id]? = some x) : ∃ y : Session, s.store.sessions[id]? = some y := by
  rcases hy : s.store.sessions[id]? with _ | y
  · rw [h.gone id hid hy] at hx
    cases hx
  · exact ⟨y, rfl⟩

theorem LockOf.frame (h : LockOf s id lock) (hf : Frame free τ s s') : LockOf s' id lock := by
  refine ⟨Nat.lt_of_lt_of_le h.1 hf.fresh, fun x hx => ?_⟩
  obtain ⟨y, hy⟩ := hf.lived h.1 hx
  exact hf.locks id lock x (h.2 y hy) hx

theorem Has.frame (h : Has s τ' id lock) (hf : Frame free τ s s') (hne : τ' ≠ τ) : Has s' τ' id lock :=
  ⟨hf.owner τ' lock hne h.1, h.2.frame hf⟩

theorem Last.frame (h : Last free s id m) (hhas : Has s τ' id lock) (hf : Frame free τ s s') (hne : τ' ≠ τ) :
    Last free s' id m := fun hfree x hx => by
  obtain ⟨y, hy, hcontext⟩ := hf.kept hfree τ' id lock x hne hhas hx
  exact hcontext ▸ h hfree y hy

/-- **The others do not disturb a thread.** -/
theorem Fits.frame (h : Fits free s τ' p) (hf : Frame free τ s s') (hne : τ' ≠ τ) : Fits free s' τ' p := by
  cases p with
  | asks id => exact Nat.lt_of_lt_of_le h hf.fresh
  | waits id lock => exact LockOf.frame h hf
  | holds id lock => exact Has.frame h hf hne
  | added id lock m => exact ⟨h.1.frame hf hne, h.2.frame h.1 hf hne⟩
  | opens id lock token m =>
    exact ⟨h.1.frame hf hne, hf.tokens _ _ _ _ hne h.1 h.2.1, h.2.2.frame h.1 hf hne⟩
  | compacts id lock token m read =>
    refine ⟨h.1.frame hf hne, hf.tokens _ _ _ _ hne h.1 h.2.1, h.2.2.1.frame h.1 hf hne, fun hfree x hx => ?_⟩
    obtain ⟨y, hy⟩ := hf.lived h.1.2.1 hx
    exact h.2.2.2 hfree y hy
  | runs id lock token => exact ⟨h.1.frame hf hne, hf.tokens _ _ _ _ hne h.1 h.2⟩
  | cleared lock => exact hf.owner _ _ hne h
  | forgets id => exact ⟨Nat.lt_of_lt_of_le h.1 hf.fresh, hf.gone id h.1 h.2⟩
  | clears id => trivial
  | done => trivial

/-- Two threads do not have the mutex of one session that lives. -/
theorem Has.unique {x : Session} {lock' : ℕ} (h : Has s τ id lock) (h' : Has s τ' id lock')
    (hx : s.store.sessions[id]? = some x) : τ = τ' := by
  have hlock := h.2.2 x hx
  rw [h'.2.2 x hx, Option.some.injEq] at hlock
  have howner := h.1
  rw [← hlock, h'.1] at howner
  exact (Option.some.inj howner).symm

theorem of_get_modify {sessions : BTreeMap Uuid Session} {k a : Uuid} {f : Session → Session} {x : Session}
    (h : (sessions.modify k f)[a]? = some x) :
    ∃ y, sessions[a]? = some y ∧ (a = k ∧ x = f y ∨ a ≠ k ∧ x = y) := by
  rw [BTreeMap.get_modify] at h
  split at h
  next ha =>
    obtain ⟨y, hy, rfl⟩ := Option.map_eq_some_iff.mp h
    exact ⟨y, hy, .inl ⟨ha, rfl⟩⟩
  next ha => exact ⟨x, h, .inr ⟨ha, rfl⟩⟩

theorem Base.edit {f : Session → Session} (h : Base free s) :
    Base free { s with store := s.store.edit id f } where
  drawn a x hx := by
    obtain ⟨y, hy, -⟩ := of_get_modify hx
    exact h.drawn a y hy
  sent := h.sent

theorem LockOf.edit {a : Uuid} {f : Session → Session} (h : LockOf s a lock) :
    LockOf { s with store := s.store.edit id f } a lock := by
  refine ⟨h.1, fun x hx => ?_⟩
  obtain ⟨y, hy, -⟩ := of_get_modify hx
  exact h.2 y hy

theorem Cancellable.edit {a : Uuid} {f : Session → Session} (h : Cancellable s a token) :
    Cancellable { s with store := s.store.edit id f } a token := fun x hx => by
  obtain ⟨y, hy, -⟩ := of_get_modify hx
  exact h y hy

theorem Last.edit {f : Session → Session} (h : free = false → ∀ x : Session,
    s.store.sessions[id]? = some x → (f x).modelMessages.getLast? = some m) :
    Last free { s with store := s.store.edit id f } id m := fun hfree x hx => by
  obtain ⟨y, hy, ⟨-, rfl⟩ | ⟨hne, -⟩⟩ := of_get_modify hx
  · exact h hfree y hy
  · exact absurd rfl hne

/-- What the others see of a write, where all prompts are streamed: nobody else has the mutex. -/
theorem Frame.edit {f : Session → Session} (h : free = false → Has s τ id lock) :
    Frame free τ s { s with store := s.store.edit id f } := by
  have hrefl : Frame free τ s s := .refl
  refine { hrefl with
    gone := fun a _ hnone => ?_
    locks := fun _ _ _ h _ => h
    tokens := fun _ _ _ _ _ _ h => h.edit
    kept := fun hfree τ' a lock' x hne hhas hx => ?_ }
  · simp only [SessionStore.edit]
    rw [BTreeMap.get_modify, hnone]
    simp
  · obtain ⟨y, hy, ⟨rfl, -⟩ | ⟨-, rfl⟩⟩ := of_get_modify hx
    · exact absurd (hhas.unique (h hfree) hy) hne
    · exact ⟨_, hy, rfl⟩

/-- A step that leaves the sessions, the mutexes and what can be cancelled. -/
theorem Frame.of_sessions (hfresh : s.fresh ≤ s'.fresh) (howner : s'.owner = s.owner)
    (hsessions : s'.store.sessions = s.store.sessions) (hlocks : s'.store.sessionLocks = s.store.sessionLocks)
    (h : ∀ (a : Uuid) (t : ℕ), Cancellable s a t → Cancellable s' a t) : Frame free τ s s' where
  fresh := hfresh
  gone a _ hnone := by rw [hsessions, hnone]
  owner _ _ _ h := by rw [howner, h]
  locks _ _ _ h _ := by rw [hlocks, h]
  tokens _ a _ t _ _ ht := h a t ht
  kept _ _ _ _ x _ _ hx := ⟨x, hsessions ▸ hx, rfl⟩

theorem Cancellable.clear {a : Uuid} (h : Cancellable s a token) :
    Cancellable { s with store := s.store.clearActiveStreamCancel id } a token := by
  intro x hx
  rw [SessionStore.sessions_clearActiveStreamCancel] at hx
  rw [SessionStore.activeStreamCancels_clearActiveStreamCancel,
    SessionStore.mem_cancelled_clearActiveStreamCancel]
  rcases h x hx with ht | ht
  · by_cases ha : a = id
    · exact .inr (.inr (ha ▸ ht))
    · exact .inl (by rw [BTreeMap.get_erase_of_ne ha, ht])
  · exact .inr (.inl ht)

theorem Frame.clear : Frame free τ s { s with store := s.store.clearActiveStreamCancel id } :=
  .of_sessions (Nat.le_refl _) rfl (by simp) (by simp) fun _ _ h => h.clear

theorem Base.clear (h : Base free s) : Base free { s with store := s.store.clearActiveStreamCancel id } :=
  ⟨by simpa using h.drawn, h.sent⟩

theorem Frame.release (h : s.owner[lock]? = some τ) :
    Frame free τ s { s with owner := s.owner.erase lock } := by
  have hrefl : Frame free τ s s := .refl
  refine { hrefl with owner := fun τ' lock' hne h' => ?_ }
  have hother : lock' ≠ lock := by
    rintro rfl
    rw [h] at h'
    exact hne (Option.some.inj h').symm
  rw [BTreeMap.get_erase_of_ne hother, h']

/-- What `SessionLock` gives is the mutex of the session, and no other mutex changes. -/
theorem SessionStore.sessionLock_spec (made : ℕ) (id : Uuid) (s : SessionStore) :
    ∃ locks : BTreeMap Uuid ℕ, (s.sessionLock made id).2 = { s with sessionLocks := locks } ∧
      locks[id]? = some (s.sessionLock made id).1 ∧
      ∀ a lock : ℕ, s.sessionLocks[a]? = some lock → locks[a]? = some lock := by
  rcases h : s.sessionLocks[id]? with _ | lock
  · refine ⟨s.sessionLocks.insert id made, by simp [sessionLock, h], by simp [sessionLock, h],
      fun a lock ha => ?_⟩
    have hne : a ≠ id := by
      rintro rfl
      rw [h] at ha
      cases ha
    rw [BTreeMap.get_insert_of_ne hne, ha]
  · exact ⟨s.sessionLocks, by simp [sessionLock, h], by simp [sessionLock, h], fun _ _ h => h⟩

/-- The last message stays the last one behind a summary. -/
theorem getLast?_summary {a : Message} {l : List Message} (estimate : Message → ℕ) (budget : ℕ)
    (h : l.getLast? = some m) : (a :: l.drop (tailStart estimate budget l)).getLast? = some m := by
  have hlength : l.length ≠ 0 := fun hzero => by
    rw [List.length_eq_zero_iff.mp hzero] at h
    cases h
  have hstart := @tailStart_le estimate budget l
  have hlt : ¬l.length ≤ tailStart estimate budget l := by
    simp only [compactionMinTail] at hstart
    omega
  rw [List.getLast?_cons, List.getLast?_drop, if_neg hlt, h]
  rfl

theorem context_eq (s : Shared) (id : Uuid) :
    s.context id = [] ∧ s.store.sessions[id]? = none ∨
      ∃ x, s.store.sessions[id]? = some x ∧ s.context id = x.modelMessages := by
  rcases hx : s.store.sessions[id]? with _ | x
  · exact .inl ⟨by simp [Shared.context, SessionStore.getSession, hx], rfl⟩
  · exact .inr ⟨x, rfl, by simp [Shared.context, SessionStore.getSession, hx]⟩

end Frames

/-! ## One step -/

section Steps

variable {free : Bool} {s s' : Shared} {τ : ℕ} {p p' : Place}

theorem Fits.owner {lock : ℕ} (h : Fits free s τ p) (hp : p.lock = some lock) : s.owner[lock]? = some τ := by
  cases p <;> cases hp <;> first | exact h | exact h.1 | exact h.1.1

/-- **What a step of a thread does**, to what is shared, to the others and to the thread. -/
theorem Act.keeps (h : Act τ s p p' s') (hs : Base free s) (hp : Fits free s τ p) :
    Base free s' ∧ Frame free τ s s' ∧ Fits free s' τ p' := by
  have hrefl : Frame free τ s s := .refl
  cases h with
  | @mutex id =>
    obtain ⟨locks, hstore, hlock, hkept⟩ := s.store.sessionLock_spec s.fresh id
    simp only [hstore]
    exact ⟨⟨fun a x hx => Nat.lt_succ_of_lt (hs.drawn a x hx), hs.sent⟩,
      { hrefl with fresh := Nat.le_succ _, locks := fun a lock x h _ => hkept a lock h },
      Nat.lt_succ_of_lt hp, fun x _ => hlock⟩
  | @take id lock hfree =>
    refine ⟨⟨hs.drawn, hs.sent⟩, { hrefl with owner := fun τ' lock' _ h => ?_ },
      BTreeMap.get_insert_self _ _ _, hp⟩
    have hne : lock' ≠ lock := by
      rintro rfl
      rw [hfree] at h
      cases h
    rw [BTreeMap.get_insert_of_ne hne, h]
  | @add id lock now m =>
    exact ⟨hs.edit, .edit fun _ => hp, ⟨hp.1, hp.2.edit⟩, Last.edit fun _ _ _ => by simp⟩
  | @register id lock m =>
    refine ⟨⟨fun a x hx => Nat.lt_succ_of_lt (hs.drawn a x hx), hs.sent⟩,
      { hrefl with
        fresh := Nat.le_succ _, locks := fun _ _ _ h _ => h
        tokens := fun τ' a lock' t hne hhas ht x hx => ?_ },
      ⟨hp.1.1, Nat.lt_succ_of_lt hp.1.2.1, hp.1.2.2⟩,
      fun _ _ => .inl (BTreeMap.get_insert_self _ _ _), hp.2⟩
    -- the token of another turn stays registered, as that turn is of another session
    have ha : a ≠ id := by
      rintro rfl
      exact hne (hhas.unique hp.1 hx)
    exact (ht x hx).imp_left fun h => (BTreeMap.get_insert_of_ne ha).trans h
  | @read id lock token m =>
    refine ⟨hs, hrefl, hp.1, hp.2.1, hp.2.2, fun hfree x hx => ?_⟩
    rcases context_eq s id with ⟨-, hnone⟩ | ⟨y, hy, hcontext⟩
    · rw [hnone] at hx
      cases hx
    · rw [hcontext]
      exact hp.2.2 hfree y hy
  | keep => exact ⟨hs, hrefl, hp.1, hp.2.1, hp.2.2.1⟩
  | replace made now summary estimate budget =>
    exact ⟨hs.edit, .edit fun _ => hp.1, ⟨hp.1.1, hp.1.2.edit⟩, hp.2.1.edit,
      Last.edit fun hfree y hy => getLast?_summary estimate budget (hp.2.2.2 hfree y hy)⟩
  | mark made now summary =>
    exact ⟨hs.edit, .edit fun _ => hp.1, ⟨hp.1.1, hp.1.2.edit⟩, hp.2.1.edit, Last.edit hp.2.2⟩
  | @send id lock token m =>
    refine ⟨⟨hs.drawn, fun hfree e he context hcontext => ?_⟩,
      .of_sessions (Nat.le_refl _) rfl rfl rfl fun _ _ h => h, hp.1, hp.2.1⟩
    rcases List.mem_cons.mp he with rfl | he
    · obtain ⟨y, hy, rfl⟩ := Option.map_eq_some_iff.mp hcontext
      exact hp.2.2 hfree y hy
    · exact hs.sent hfree e he context hcontext
  | write f => exact ⟨hs.edit, .edit fun _ => hp.1, ⟨hp.1.1, hp.1.2.edit⟩, hp.2.edit⟩
  | release => exact ⟨⟨hs.drawn, hs.sent⟩, .release hp.1.1, trivial⟩
  | clear => exact ⟨hs.clear, .clear, trivial⟩
  | clearFirst => exact ⟨hs.clear, .clear, hp.1.1⟩
  | leave hlock => exact ⟨⟨hs.drawn, hs.sent⟩, .release (hp.owner hlock), trivial⟩
  | @removeLock id =>
    refine ⟨⟨hs.drawn, hs.sent⟩, { hrefl with locks := fun a lock x h hx => ?_ }, trivial⟩
    have hne : a ≠ id := by
      rintro rfl
      exact Option.some_ne_none _ (hx.symm.trans hp.2)
    exact (BTreeMap.get_erase_of_ne hne).trans h

theorem Other.keeps (τ : ℕ) (h : Other free s s') (hs : Base free s) : Base free s' ∧ Frame free τ s s' := by
  have hrefl : Frame free τ s s := .refl
  cases h with
  | create now tenant key endpoint =>
    refine ⟨⟨fun a x hx => ?_, hs.sent⟩, { hrefl with
      fresh := Nat.le_succ _
      gone := fun a ha hnone => (BTreeMap.get_insert_of_ne ha.ne).trans hnone
      locks := fun _ _ _ h _ => h
      tokens := fun τ' a _ t _ hhas ht x hx => ht x ((BTreeMap.get_insert_of_ne hhas.2.1.ne).symm.trans hx)
      kept := fun _ τ' a _ x _ hhas hx => ⟨x, (BTreeMap.get_insert_of_ne hhas.2.1.ne).symm.trans hx, rfl⟩ }⟩
    by_cases ha : a = s.fresh
    · exact ha ▸ Nat.lt_succ_self _
    · exact Nat.lt_succ_of_lt (hs.drawn a x ((BTreeMap.get_insert_of_ne ha).symm.trans hx))
  | interrupt id =>
    simp only [SessionStore.interruptActiveStream]
    split
    · exact ⟨⟨hs.drawn, hs.sent⟩, .of_sessions (Nat.le_refl _) rfl rfl rfl
        fun _ _ h x hx => (h x hx).imp_right (List.mem_cons_of_mem _)⟩
    · exact ⟨hs, hrefl⟩
  | write id f hfree =>
    exact ⟨hs.edit, @Frame.edit free s τ id 0 f fun h => absurd (h.symm.trans hfree) Bool.false_ne_true⟩

theorem Frame.drop (id : Uuid) (hs : Base free s) : Base free { s with store := s.store.dropSession id } ∧
    Frame free τ s { s with store := s.store.dropSession id } := by
  have hrefl : Frame free τ s s := .refl
  have hsub : ∀ (a : Uuid) (x : Session), (s.store.sessions.erase id)[a]? = some x →
      s.store.sessions[a]? = some x := fun a x h => (BTreeMap.get_erase_eq_some.mp h).2
  refine ⟨⟨fun a x hx => hs.drawn a x (hsub a x hx), hs.sent⟩, { hrefl with
    gone := fun a _ hnone => ?_
    locks := fun _ _ _ h _ => h
    tokens := fun _ a _ _ _ _ h x hx => h x (hsub a x hx)
    kept := fun _ _ a _ x _ _ hx => ⟨x, hsub a x hx, rfl⟩ }⟩
  rcases hx : (s.store.sessions.erase id)[a]? with _ | x
  · exact hx
  · exact absurd ((hsub a x hx).symm.trans hnone) (Option.some_ne_none _)

end Steps

/-! ## All steps -/

structure Invariant (free : Bool) (t : Threads) : Prop where
  base : Base free t.shared
  fits : ∀ (τ : ℕ) (p : Place), t.places[τ]? = some p → Fits free t.shared τ p

section Runs

variable {free : Bool} {t t' : Threads}

/-- A thread that starts, after a step that the others do not mind. -/
theorem Invariant.add {s : Shared} {p : Place} (h : Invariant free t) (hs : Base free s)
    (hf : Frame free t.places.length t.shared s) (hp : Fits free s t.places.length p) :
    Invariant free ⟨s, t.places ++ [p]⟩ := by
  refine ⟨hs, fun τ q hq => ?_⟩
  rcases Nat.lt_trichotomy τ t.places.length with hlt | rfl | hgt
  · rw [List.getElem?_append_left hlt] at hq
    exact (h.fits τ q hq).frame hf hlt.ne
  · rw [List.getElem?_concat_length] at hq
    exact Option.some.inj hq ▸ hp
  · rw [List.getElem?_eq_none (by simpa [Nat.succ_le_iff] using hgt)] at hq
    cases hq

theorem Step.keeps (hstep : Step free t t') (h : Invariant free t) : Invariant free t' := by
  cases hstep with
  | prompt hx => exact h.add h.base .refl (h.base.drawn _ _ hx)
  | @drop s l id x hx =>
    obtain ⟨hs, hf⟩ := Frame.drop (s := s) id h.base
    exact h.add hs hf ⟨h.base.drawn _ _ hx, by simp [SessionStore.dropSession]⟩
  | @act s s' l τ p p' hp hact =>
    obtain ⟨hs, hf, hp'⟩ := hact.keeps h.base (h.fits τ p hp)
    refine ⟨hs, fun τ' q hq => ?_⟩
    by_cases hne : τ' = τ
    · subst hne
      rw [List.getElem?_set_self (List.getElem?_eq_some_iff.mp hp).1] at hq
      exact Option.some.inj hq ▸ hp'
    · rw [List.getElem?_set_ne (Ne.symm hne)] at hq
      exact (h.fits τ' q hq).frame hf hne
  | @other s s' l hother =>
    refine ⟨(Other.keeps 0 hother h.base).1, fun τ q hq => ?_⟩
    exact (h.fits τ q hq).frame (Other.keeps (τ + 1) hother h.base).2 (Nat.lt_succ_self τ).ne

/-- **What holds in every state that comes about**, in whatever order the threads take their steps. -/
theorem Reaches.invariant (h : Reaches free t) : Invariant free t := by
  induction h with
  | refl => exact ⟨⟨by simp [SessionStore.new], fun _ _ he => absurd he List.not_mem_nil⟩, by simp⟩
  | tail _ hstep ih => exact hstep.keeps ih

theorem Fits.turn {s : Shared} {τ : ℕ} {p : Place} {id : Uuid} {token : ℕ} (h : Fits free s τ p)
    (hp : p.turn = some (id, token)) : (∃ lock, Has s τ id lock) ∧ Cancellable s id token := by
  cases p <;> cases hp
  · exact ⟨⟨_, h.1⟩, h.2.1⟩
  · exact ⟨⟨_, h.1⟩, h.2.1⟩
  · exact ⟨⟨_, h.1⟩, h.2⟩

theorem Reaches.act {s s' : Shared} {l : List Place} {p p' : Place} (τ : ℕ) (h : Reaches free ⟨s, l⟩)
    (hp : l[τ]? = some p) (ha : Act τ s p p' s') : Reaches free ⟨s', l.set τ p'⟩ :=
  Relation.ReflTransGen.tail h (.act hp ha)

def Sample.prompt : Message := { id := 1, role := "user", content := "hello", createdAt := 0, parts := [] }

/-- A session has been created, the first call of a prompt has been sent, and another prompt waits. -/
theorem Sample.reaches : ∃ (t : Threads) (p : Place) (token : ℕ) (x : Session), Reaches false t ∧
    t.places[0]? = some p ∧ p.turn = some (0, token) ∧ t.shared.store.sessions[(0 : Uuid)]? = some x ∧
    (∃ lock, t.places[1]? = some (.waits 0 lock)) ∧
    t.shared.sent.map (fun e => (e.1, e.2.map List.length)) = [(Sample.prompt, some 1)] := by
  have hcreate : Reaches false ⟨_, []⟩ :=
    Relation.ReflTransGen.tail .refl (.other (.create 0 "public" "key" "agent"))
  have hx := BTreeMap.get_insert_self (∅ : BTreeMap Uuid Session) 0
    (SessionStore.createSession 0 0 "public" "key" "agent" .new).1
  have hask : Reaches false ⟨_, [.asks 0, .asks 0]⟩ :=
    Relation.ReflTransGen.tail (Relation.ReflTransGen.tail hcreate (.prompt hx)) (.prompt hx)
  have hlock := ((hask.act 0 rfl .mutex).act 1 rfl .mutex).act 0 rfl (.take rfl)
  have hadd := hlock.act 0 rfl (.add 0 Sample.prompt)
  have hsend := (hadd.act 0 rfl .register).act 0 rfl .send
  exact ⟨_, _, _, _, hsend, rfl, rfl, (BTreeMap.get_modify_self _ 0 _).trans (congrArg (Option.map _) hx),
    ⟨_, rfl⟩, by decide +kernel⟩

/-- **One turn at a time.** No other thread has a turn of a session that lives, also while sessions are
deleted and mutexes are made and taken away. -/
theorem turn_unique (h : Reaches free t) {τ : ℕ} {p : Place} {id : Uuid} {token : ℕ} {x : Session}
    (hp : t.places[τ]? = some p) (hturn : p.turn = some (id, token))
    (hx : t.shared.store.sessions[id]? = some x) (τ' : ℕ) (p' : Place) (token' : ℕ)
    (hp' : t.places[τ']? = some p') (hturn' : p'.turn = some (id, token')) : τ' = τ := by
  obtain ⟨⟨lock, hhas⟩, -⟩ := (h.invariant.fits τ p hp).turn hturn
  obtain ⟨⟨lock', hhas'⟩, -⟩ := (h.invariant.fits τ' p' hp').turn hturn'
  exact hhas'.unique hhas hx

theorem turn_unique_sample : ∃ t : Threads, (∃ lock, t.places[1]? = some (.waits 0 lock)) ∧
    ∀ (τ : ℕ) (p : Place) (token : ℕ), t.places[τ]? = some p → p.turn = some (0, token) → τ = 0 := by
  obtain ⟨t, p, token, x, h, hp, hturn, hx, hwaits, -⟩ := Sample.reaches
  exact ⟨t, hwaits, turn_unique h hp hturn hx⟩

/-- **An interrupt reaches the turn that runs**, if the session lives: after it the token of the turn
is cancelled. -/
theorem interrupt_cancels (h : Reaches free t) {τ : ℕ} {p : Place} {id : Uuid} {token : ℕ} {x : Session}
    (hp : t.places[τ]? = some p) (hturn : p.turn = some (id, token))
    (hx : t.shared.store.sessions[id]? = some x) :
    token ∈ (t.shared.store.interruptActiveStream id).2.cancelled := by
  have htoken := ((h.invariant.fits τ p hp).turn hturn).2 x hx
  simp only [SessionStore.interruptActiveStream]
  split
  next registered hreg =>
    rw [hreg, Option.some.injEq, eq_comm] at htoken
    exact List.mem_cons.mpr htoken
  next hreg => exact htoken.resolve_left fun h => Option.some_ne_none _ (h.symm.trans hreg)

theorem interrupt_cancels_sample : ∃ (t : Threads) (p : Place) (token : ℕ), t.places[0]? = some p ∧
    (∃ lock, t.places[1]? = some (.waits 0 lock)) ∧
    p.turn = some (0, token) ∧ token ∈ (t.shared.store.interruptActiveStream 0).2.cancelled := by
  obtain ⟨t, p, token, x, h, hp, hturn, hx, hwaits, -⟩ := Sample.reaches
  exact ⟨t, p, token, hp, hwaits, hturn, interrupt_cancels h hp hturn hx⟩

/-- **The context of a first call ends with its own prompt**, unless the session is gone, where all
prompts are streamed: nobody else writes to the session between the prompt and the call. -/
theorem sent_prompt (h : Reaches false t) : ∀ e ∈ t.shared.sent, ∀ context, e.2 = some context →
    context.getLast? = some e.1 :=
  h.invariant.base.sent rfl

theorem sent_prompt_sample : ∃ t : Threads,
    t.shared.sent.map (fun e => (e.1, e.2.map List.length)) = [(Sample.prompt, some 1)] ∧
    ∀ e ∈ t.shared.sent, ∀ context, e.2 = some context → context.getLast? = some e.1 := by
  obtain ⟨t, p, token, x, h, -, -, -, -, hsent⟩ := Sample.reaches
  exact ⟨t, hsent, sent_prompt h⟩

end Runs

end Inferx.Sessions
