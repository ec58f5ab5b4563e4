import Mathlib.Data.List.Perm.Basic
import Mathlib.Tactic.Common
import Inferx.Lib.Runs
import Inferx.Gateway.External

/-!
# Permits are counted exactly

Requests to a capped row hold a permit, which points to the limiter it was taken
from. Rows are edited, deleted and made again while permits are out, and limiters come
and go with them. A limiter is dropped only when nothing is in flight, and is made
only where there is none; so a permit always points to the limiter that is filed under
its key, and that limiter counts it.
-/

namespace Inferx.Gateway.External

variable {J : Type} [DecidableEq J] (fromJson : J → Option BackendConfig)

/-- The gateway, the permits of capped rows that are out, and for each admission so far
what was in flight and what the ceiling was. -/
structure PermitState (J : Type) where
  mgr : ExternalEndpointMgr J
  permits : List (LimiterKey × ℕ) := []
  admitted : List (ℤ × ℤ) := []

/-- What can happen next. -/
inductive PermitInput (J : Type) where
  | tryAcquire (k : LimiterKey)
  /-- the `i`-th permit is dropped -/
  | dropPermit (i : ℕ)
  | setCeiling (k : LimiterKey) (c : ℤ)
  | upsertMirror (ep : ExternalEndpoint J)
  | delete (slug : String)
  | sweepLimiters

namespace PermitState

variable (s : PermitState J)

def next : PermitInput J → Option (PermitState J)
  | .tryAcquire k =>
    match s.mgr.tryAcquire k with
    | (mgr, some (some a)) =>
      -- the limiter has counted the request already
      some { mgr, permits := (k, a) :: s.permits
             admitted := ((mgr.heap a).inflight - 1, (mgr.heap a).ceiling) :: s.admitted }
    | (mgr, _) => some { s with mgr }
  | .dropPermit i =>
    s.permits[i]?.map fun p => { s with mgr := s.mgr.dropPermit p.2, permits := s.permits.eraseIdx i }
  | .setCeiling k c => some { s with mgr := s.mgr.setCeiling fromJson k c }
  | .upsertMirror ep => some { s with mgr := s.mgr.upsertMirror fromJson ep }
  | .delete slug => some { s with mgr := s.mgr.delete slug }
  | .sweepLimiters => some { s with mgr := s.mgr.sweepLimiters }

/-- A gateway that has just read its table. -/
def Started : Prop := ∃ rows, s = { mgr := .new fromJson rows }

/-- How many permits are out for a replica. -/
def held (ps : List (LimiterKey × ℕ)) (k : LimiterKey) : ℕ := ps.countP fun p => p.1 == k

theorem held_cons (p : LimiterKey × ℕ) (ps : List (LimiterKey × ℕ)) (k : LimiterKey) :
    held (p :: ps) k = held ps k + if p.1 = k then 1 else 0 := by
  rw [held, List.countP_cons, held]
  by_cases hk : p.1 = k
  · rw [if_pos hk, if_pos (beq_iff_eq.mpr hk)]
  · rw [if_neg hk, if_neg fun h => hk (beq_iff_eq.mp h)]

/-- What is held without one of the permits. -/
theorem held_eraseIdx {ps : List (LimiterKey × ℕ)} {i : ℕ} {p : LimiterKey × ℕ} (h : ps[i]? = some p)
    (k : LimiterKey) : held ps k = held (ps.eraseIdx i) k + if p.1 = k then 1 else 0 := by
  obtain ⟨hlt, rfl⟩ := List.getElem?_eq_some_iff.mp h
  rw [← held_cons]
  exact ((List.getElem_cons_eraseIdx_perm hlt).countP_eq _).symm

/-- **Permits are counted exactly.** -/
structure Counted : Prop where
  /-- a permit points to the limiter that is filed under its key -/
  stored : ∀ p ∈ s.permits, s.mgr.limiters[p.1]? = some p.2
  /-- a limiter counts its permits -/
  counted : ∀ (k : LimiterKey) a, s.mgr.limiters[k]? = some a → (s.mgr.heap a).inflight = held s.permits k
  /-- and is never negative -/
  nonneg : ∀ (k : LimiterKey) a, s.mgr.limiters[k]? = some a → 0 ≤ (s.mgr.heap a).inflight
  /-- each request was admitted below the ceiling -/
  admitted : ∀ e ∈ s.admitted, e.1 < e.2

end PermitState

/-! ## Limiters and permits -/

/-- The limiters count the permits. -/
structure Counts (ps : List (LimiterKey × ℕ)) (m : ExternalEndpointMgr J) : Prop where
  stored : ∀ p ∈ ps, m.limiters[p.1]? = some p.2
  counted : ∀ (k : LimiterKey) a, m.limiters[k]? = some a → (m.heap a).inflight = PermitState.held ps k
  /-- no two keys share a limiter -/
  inj : ∀ (k k' : LimiterKey) a, m.limiters[k]? = some a → m.limiters[k']? = some a → k = k'
  /-- an address that is in use is not fresh -/
  used : ∀ (k : LimiterKey) a, m.limiters[k]? = some a → a < m.fresh

namespace Counts

variable {fromJson} {ps : List (LimiterKey × ℕ)} {m m' : ExternalEndpointMgr J}

omit [DecidableEq J]

/-- The mirror has no part in it. -/
theorem congr (h : Counts ps m) (hl : m'.limiters = m.limiters) (hh : m'.heap = m.heap) (hf : m'.fresh = m.fresh) :
    Counts ps m' := by
  refine ⟨?_, ?_, ?_, ?_⟩
  · rw [hl]
    exact h.stored
  · rw [hl, hh]
    exact h.counted
  · rw [hl]
    exact h.inj
  · rw [hl, hf]
    exact h.used

theorem storeCeiling (h : Counts ps m) (a : ℕ) (c : ℤ) : Counts ps (m.storeCeiling a c) := by
  refine ⟨h.stored, fun k b hb => ?_, h.inj, h.used⟩
  rw [← h.counted k b hb, ExternalEndpointMgr.storeCeiling_inflight]

/-- Without a limiter no permit is out. -/
theorem not_held (h : Counts ps m) {k : LimiterKey} (hk : m.limiters[k]? = none) : ∀ p ∈ ps, p.1 ≠ k := by
  rintro p hp rfl
  rw [h.stored p hp] at hk
  cases hk

/-- A limiter is made where no permit is out. -/
theorem alloc (h : Counts ps m) {k : LimiterKey} (hk : ∀ p ∈ ps, p.1 ≠ k) (c : ℤ) :
    Counts ps (m.alloc k c) := by
  have hnone : PermitState.held ps k = 0 :=
    List.countP_eq_zero.mpr fun p hp hpk => hk p hp (eq_of_beq hpk)
  have hget : ∀ (k' : LimiterKey) a, (m.limiters.insert k m.fresh)[k']? = some a →
      (k' = k ∧ a = m.fresh) ∨ (k' ≠ k ∧ m.limiters[k']? = some a ∧ a ≠ m.fresh) := by
    intro k' a ha
    rw [BTreeMap.get_insert] at ha
    by_cases hkk : k' = k
    · rw [if_pos hkk] at ha
      exact .inl ⟨hkk, (Option.some.inj ha).symm⟩
    · rw [if_neg hkk] at ha
      exact .inr ⟨hkk, ha, Nat.ne_of_lt (h.used k' a ha)⟩
  refine ⟨fun p hp => ?_, fun k' a ha => ?_, fun k₁ k₂ a h₁ h₂ => ?_, fun k' a ha => ?_⟩
  · exact (BTreeMap.get_insert_of_ne (hk p hp)).trans (h.stored p hp)
  · rw [ExternalEndpointMgr.alloc_heap]
    rcases hget k' a ha with ⟨rfl, rfl⟩ | ⟨-, ha', hne⟩
    · rw [if_pos rfl, hnone]
      rfl
    · rw [if_neg hne]
      exact h.counted k' a ha'
  · rcases hget k₁ a h₁ with ⟨rfl, rfl⟩ | ⟨-, h₁', hne⟩
    · rcases hget k₂ _ h₂ with ⟨rfl, -⟩ | ⟨-, -, hne⟩
      · rfl
      · exact absurd rfl hne
    · rcases hget k₂ a h₂ with ⟨-, rfl⟩ | ⟨-, h₂', -⟩
      · exact absurd rfl hne
      · exact h.inj k₁ k₂ a h₁' h₂'
  · rcases hget k' a ha with ⟨-, rfl⟩ | ⟨-, ha', -⟩
    · exact Nat.lt_succ_self _
    · exact Nat.lt_succ_of_lt (h.used k' a ha')

theorem get_filter_eq_some {t : BTreeMap LimiterKey ℕ} {f : LimiterKey → ℕ → Bool} {k : LimiterKey} {a : ℕ} :
    (t.filter f)[k]? = some a ↔ t[k]? = some a ∧ f k a = true := by
  rw [Std.ExtTreeMap.getElem?_filter, Option.pfilter_eq_some_iff]
  constructor
  · rintro ⟨h, hf⟩
    exact ⟨h, by simpa using hf⟩
  · rintro ⟨h, hf⟩
    exact ⟨h, by simpa using hf⟩

/-- Limiters are dropped that have nothing in flight. -/
theorem retain (h : Counts ps m) {p : LimiterKey → ConcurrencyLimiter → Bool}
    (hp : ∀ k l, l.inflight ≠ 0 → p k l = true) : Counts ps (m.retain p) := by
  refine ⟨fun q hq => ?_, fun k a ha => ?_, fun k k' a ha ha' => ?_, fun k a ha => ?_⟩
  · refine get_filter_eq_some.mpr ⟨h.stored q hq, hp _ _ ?_⟩
    rw [h.counted q.1 q.2 (h.stored q hq)]
    have hpos : 0 < PermitState.held ps q.1 := List.countP_pos_iff.mpr ⟨q, hq, beq_self_eq_true _⟩
    omega
  · exact h.counted k a (get_filter_eq_some.mp ha).1
  · exact h.inj k k' a (get_filter_eq_some.mp ha).1 (get_filter_eq_some.mp ha').1
  · exact h.used k a (get_filter_eq_some.mp ha).1

theorem seat (h : Counts ps m) (slug : String) (c : ℤ) (r : DiscoveredReplica) : Counts ps (m.seat slug c r) := by
  unfold ExternalEndpointMgr.seat
  split
  next => exact h.storeCeiling _ _
  next hk => exact h.alloc (h.not_held hk) c

/-- A loop whose body keeps the counts keeps them. -/
theorem foldl {A : Type} {f : ExternalEndpointMgr J → A → ExternalEndpointMgr J}
    (hf : ∀ m a, Counts ps m → Counts ps (f m a)) (h : Counts ps m) (l : List A) : Counts ps (l.foldl f m) := by
  induction l generalizing m with
  | nil => exact h
  | cons a l ih => exact ih (hf m a h)

theorem storeAll (h : Counts ps m) (slug : String) (c : ℤ) : Counts ps (m.storeAll slug c) := by
  refine foldl (fun m e h => ?_) h _
  split
  next => exact h.storeCeiling _ _
  next => exact h

theorem reseat (h : Counts ps m) (slug : String) (c : ℤ) (resolved : List DiscoveredReplica) :
    Counts ps (m.reseat slug c resolved) := by
  refine foldl (fun m r h => h.seat slug c r) (h.retain fun k l hl => ?_) _
  simp [hl]

theorem sweepLimiters (h : Counts ps m) : Counts ps m.sweepLimiters := by
  refine h.retain fun k l hl => ?_
  simp [hl]

theorem setCeiling (h : Counts ps m) (k : LimiterKey) (c : ℤ) : Counts ps (m.setCeiling fromJson k c) := by
  unfold ExternalEndpointMgr.setCeiling
  split
  next =>
    split
    next => exact h.storeCeiling _ _
    next => exact h
  next => exact h

theorem finishUpsert (h : Counts ps m) (ep : ExternalEndpoint J) :
    Counts ps (ExternalEndpointMgr.finishUpsert fromJson m ep) := h.congr rfl rfl rfl

variable [DecidableEq J] in
/-- An edit of a row, in each of its branches. -/
theorem upsertMirror (h : Counts ps m) (ep : ExternalEndpoint J) : Counts ps (m.upsertMirror fromJson ep) := by
  unfold ExternalEndpointMgr.upsertMirror
  split
  next =>
    split
    next => exact h
    next resolved _ =>
      dsimp only
      split
      next => exact (h.reseat ep.slug ep.maxConcurrency resolved).congr rfl rfl rfl
      next => exact h.congr rfl rfl rfl
  next =>
    split
    next =>
      split
      next =>
        refine finishUpsert (foldl (fun m r h => h.seat _ _ r) ?_ _) ep
        split
        next => exact h
        next => exact h.congr rfl rfl rfl
      next => exact h.finishUpsert ep
    next =>
      split
      next => exact (h.storeAll _ _).finishUpsert ep
      next => exact h.finishUpsert ep

/-- The limiters of a row at the start. -/
theorem allocs (h : Counts [] m) (slug : String) (c : ℤ) (l : List DiscoveredReplica) :
    Counts [] (l.foldl (fun m r => m.alloc (slug, r.id) c) m) :=
  foldl (fun _ _ h => h.alloc (by simp) c) h l

theorem seatRow (h : Counts [] m) (row : ExternalEndpoint J) : Counts [] (seatRow fromJson m row) := by
  have hrow : Counts [] { m with map := m.map.insert row.slug row } := h.congr rfl rfl rfl
  unfold External.seatRow
  split
  next => exact h
  next replicas _ =>
    dsimp only
    split
    next => exact (hrow.allocs row.slug row.maxConcurrency replicas).congr rfl rfl rfl
    next => exact hrow.congr rfl rfl rfl

/-- The rows of the table at the start. -/
theorem new (rows : List (ExternalEndpoint J)) : Counts [] (ExternalEndpointMgr.new fromJson rows) := by
  refine foldl (fun m row h => h.seatRow row) ⟨?_, ?_, ?_, ?_⟩ rows
  · simp
  · simp
  · simp
  · simp

theorem withLimiter (h : Counts ps m) (k : LimiterKey) (c : ℤ) : Counts ps (m.withLimiter k c) := by
  unfold ExternalEndpointMgr.withLimiter
  split
  next => exact h
  next hk => exact h.alloc (h.not_held hk) c

/-- A request is admitted: the limiter counts it. -/
theorem countIn (h : Counts ps m) {k : LimiterKey} {a : ℕ} (ha : m.limiters[k]? = some a) :
    Counts ((k, a) :: ps) (m.countIn a) := by
  refine ⟨fun p hp => ?_, fun k' b hb => ?_, h.inj, h.used⟩
  · rcases List.mem_cons.mp hp with rfl | hp
    · exact ha
    · exact h.stored p hp
  · have hcount := h.counted k' b hb
    simp only [ExternalEndpointMgr.countIn, Function.update_apply, PermitState.held_cons]
    by_cases hkk : k = k'
    · subst hkk
      obtain rfl := Option.some.inj (ha.symm.trans hb)
      rw [if_pos rfl, if_pos rfl, hcount]
      rfl
    · have hne : b ≠ a := fun hab => hkk (h.inj k k' a ha (hab ▸ hb))
      rw [if_neg hne, if_neg hkk, hcount]
      rfl

/-- A permit is dropped: the limiter counts it no more. -/
theorem dropPermit (h : Counts ps m) {i : ℕ} {p : LimiterKey × ℕ} (hi : ps[i]? = some p) :
    Counts (ps.eraseIdx i) (m.dropPermit p.2) := by
  have hstored := h.stored p (List.mem_of_getElem? hi)
  refine ⟨fun q hq => h.stored q (List.mem_of_mem_eraseIdx hq), fun k b hb => ?_, h.inj, h.used⟩
  have hcount := h.counted k b hb
  rw [PermitState.held_eraseIdx hi] at hcount
  simp only [ExternalEndpointMgr.dropPermit, Function.update_apply]
  by_cases hkk : p.1 = k
  · subst hkk
    obtain rfl := Option.some.inj (hstored.symm.trans hb)
    rw [if_pos rfl] at hcount
    rw [if_pos rfl]
    dsimp only
    omega
  · have hne : b ≠ p.2 := fun hab => hkk (h.inj p.1 k p.2 hstored (hab ▸ hb))
    rw [if_neg hkk] at hcount
    rw [if_neg hne, hcount]
    omega

end Counts

namespace PermitState

variable {fromJson} {s s' : PermitState J}

/-- What holds in every state. -/
structure Inv (s : PermitState J) : Prop where
  counts : Counts s.permits s.mgr
  admitted : ∀ e ∈ s.admitted, e.1 < e.2

omit [DecidableEq J] in
theorem Inv.started (h : s.Started fromJson) : Inv s := by
  obtain ⟨rows, rfl⟩ := h
  exact ⟨Counts.new rows, by simp⟩

/-- **One step** keeps the counts. -/
theorem Inv.next (h : Inv s) {c : PermitInput J} (hnext : s.next fromJson c = some s') : Inv s' := by
  cases c with
  | tryAcquire k =>
    simp only [PermitState.next] at hnext
    obtain ⟨-, heq⟩ | ⟨-, a, ha, heq | ⟨hlt, heq⟩⟩ := s.mgr.tryAcquire_cases k
    · rw [heq] at hnext
      obtain rfl := Option.some.inj hnext
      exact h
    · rw [heq] at hnext
      obtain rfl := Option.some.inj hnext
      exact ⟨h.counts.withLimiter k _, h.admitted⟩
    · rw [heq] at hnext
      obtain rfl := Option.some.inj hnext
      refine ⟨(h.counts.withLimiter k _).countIn ha, fun e he => ?_⟩
      rcases List.mem_cons.mp he with rfl | he
      · simp only [ExternalEndpointMgr.countIn, Function.update_self]
        omega
      · exact h.admitted e he
  | dropPermit i =>
    obtain ⟨p, hp, rfl⟩ := Option.map_eq_some_iff.mp hnext
    exact ⟨h.counts.dropPermit hp, h.admitted⟩
  | setCeiling k c =>
    obtain rfl := Option.some.inj hnext
    exact ⟨h.counts.setCeiling k c, h.admitted⟩
  | upsertMirror ep =>
    obtain rfl := Option.some.inj hnext
    exact ⟨h.counts.upsertMirror ep, h.admitted⟩
  | delete slug =>
    obtain rfl := Option.some.inj hnext
    exact ⟨h.counts.congr rfl rfl rfl, h.admitted⟩
  | sweepLimiters =>
    obtain rfl := Option.some.inj hnext
    exact ⟨h.counts.sweepLimiters, h.admitted⟩

omit [DecidableEq J] in
theorem Inv.toCounted (h : Inv s) : s.Counted where
  stored := h.counts.stored
  counted := h.counts.counted
  nonneg k a ha := by
    rw [h.counts.counted k a ha]
    exact Int.natCast_nonneg _
  admitted := h.admitted

/-- **Permits are counted exactly** in every run of requests, drops, edits, deletions, sweeps
and changes of the ceiling. -/
theorem counted_of_reach (h : Reach (PermitState.next fromJson) (Started fromJson) (fun _ _ => True) s) :
    s.Counted :=
  (h.invariant (fun _ => Inv.started) fun _ _ _ hinv _ hnext => hinv.next hnext).toCounted

/-! ## A run -/

/-- A row with a cap and no backends. -/
def cappedRow (maxConcurrency : ℤ) : ExternalEndpoint BackendConfig where
  slug := "m"
  baseUrl := "https://a/v1"
  upstreamModel := "u"
  providerApiKey := "sk"
  published := true
  maxConcurrency
  lastPublishedBy := none
  metricsUrl := some "https://a/metrics"
  backends := none

/-- A slug is deleted and made again with a smaller cap while a request is in flight. -/
def recreate : List (PermitInput BackendConfig) :=
  [.upsertMirror (cappedRow 2), .tryAcquire ("m", "default"), .delete "m", .sweepLimiters,
    .upsertMirror (cappedRow 1), .tryAcquire ("m", "default")]

/-- The request in flight fills the new cap. -/
theorem counted_recreate : ∃ s : PermitState BackendConfig, s.permits.length = 1 ∧ s.Counted := by
  have hrun : ((exec (PermitState.next some) (fun _ _ => True) { mgr := .new some [] } recreate).map
      fun s => s.permits.length) = some 1 := by decide +kernel
  obtain ⟨s, hs, hlen⟩ := Option.map_eq_some_iff.mp hrun
  exact ⟨s, hlen, counted_of_reach (Reach.of_exec _ _ (.init ⟨[], rfl⟩) hs)⟩

end PermitState

end Inferx.Gateway.External
