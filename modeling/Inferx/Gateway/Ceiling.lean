import Mathlib.Order.Defs.LinearOrder
import Mathlib.Algebra.Order.Ring.Unbundled.Rat
import Inferx.Gateway.EndpointMirror
import Inferx.Gateway.Permits

/-!
# The ceiling controller

A slow loop reads the metrics of each replica of a dynamic row and moves the ceiling
of its limiter: it reads the ceiling, reads what is in flight, decides, and writes.
Rows are edited meanwhile, and an edit of the cap stores the new cap as the ceiling.

Two things go wrong. The write may come from a read before the edit. And a cap of
zero, which is to refuse every request, does not last: with nothing in flight the
ceiling is reached, which the controller takes for demand.

Metrics are what a scrape has got, with the share of the cache of any linear order.
The counts of failed scrapes, which are only logged, are left out.
-/

namespace Inferx.Gateway.External

variable {J K : Type} [DecidableEq J] [LinearOrder K] (fromJson : J → Option BackendConfig)

/-! ## The controller -/

/-- `MAX_DROP_PER_TICK` -/
def maxDropPerTick : ℤ := 2

/-- What a scrape tells the controller. -/
structure ScrapedMetrics (K : Type) where
  waiting : ℤ
  kv : K

/-- The settings of the controller: `KV_HIGH_WATER` and
`externalCeilingDecreaseWaitingThreshold`. -/
structure CeilingConfig (K : Type) where
  kvHighWater : K
  decreaseWaitingThreshold : ℤ

/-- `step` -/
def step (cfg : CeilingConfig K) (c : ℤ) (metrics : ScrapedMetrics K) (localInflight : Option ℤ) : ℤ :=
  if cfg.decreaseWaitingThreshold ≤ metrics.waiting ∨ (0 < metrics.waiting ∧ cfg.kvHighWater ≤ metrics.kv) then
    max (c - min metrics.waiting maxDropPerTick) 1
  else if localInflight = some c ∧ metrics.kv < cfg.kvHighWater ∧ metrics.waiting = 0 then c + 1
  else c

/-- `decide`: the ceiling to write, if any. -/
def decideCeiling (cfg : CeilingConfig K) (ceiling inflight : Option ℤ) (scrape : Option (ScrapedMetrics K)) :
    Option ℤ :=
  match scrape, ceiling with
  | some metrics, some c => if step cfg c metrics inflight ≠ c then some (step cfg c metrics inflight) else none
  | _, _ => none

/-! ## Runs -/

/-- A tick of the controller for one replica, as far as it has come. -/
structure Tick where
  key : LimiterKey
  ceiling : Option ℤ
  /-- what was in flight, once it has been read -/
  inflight : Option (Option ℤ)
  /-- the edits of the cap that the tick has seen -/
  epoch : ℕ
  deriving DecidableEq

/-- The gateway with the ticks under way. -/
structure CeilingState (J : Type) where
  mgr : ExternalEndpointMgr J
  permits : List (LimiterKey × ℕ) := []
  ticks : List Tick := []
  /-- how often the cap of a row has been edited -/
  epoch : String → ℕ := fun _ => 0
  /-- has a tick that read a ceiling after the last edit of the cap written it? -/
  moved : LimiterKey → Bool := fun _ => false
  /-- the cap of the row at each admission of a capped row -/
  admitted : List ℤ := []

/-- What can happen next. -/
inductive CeilingInput (J K : Type) where
  | upsertMirror (ep : ExternalEndpoint J)
  | delete (slug : String)
  | sweepLimiters
  | tryAcquire (k : LimiterKey)
  | dropPermit (i : ℕ)
  /-- a tick begins: `get_ceiling` -/
  | readCeiling (k : LimiterKey)
  /-- `get_inflight` of the `i`-th tick -/
  | readInflight (i : ℕ)
  /-- the `i`-th tick ends: `decide` and `set_ceiling` -/
  | write (i : ℕ) (scrape : Option (ScrapedMetrics K))

namespace CeilingState

variable (cfg : CeilingConfig K) (s : CeilingState J)

/-- The ceiling that the `i`-th tick is about to write, and the tick. -/
def writes (i : ℕ) (scrape : Option (ScrapedMetrics K)) : Option (Tick × ℤ) :=
  s.ticks[i]?.bind fun t => t.inflight.bind fun inflight =>
    (decideCeiling cfg t.ceiling inflight scrape).map fun c => (t, c)

/-- Does a write reach the limiter? -/
def Reaches (k : LimiterKey) : Bool := s.mgr.isDynamic fromJson k.1 k.2 && (s.mgr.limiters[k]?).isSome

def next : CeilingInput J K → Option (CeilingState J)
  | .upsertMirror ep =>
    let mgr := s.mgr.upsertMirror fromJson ep
    if mgr.map[ep.slug]?.map ExternalEndpoint.maxConcurrency =
        s.mgr.map[ep.slug]?.map ExternalEndpoint.maxConcurrency then some { s with mgr }
    else
      -- the edit changes the cap
      some { s with mgr
                    epoch := fun slug => if slug = ep.slug then s.epoch slug + 1 else s.epoch slug
                    moved := fun k => if k.1 = ep.slug then false else s.moved k }
  | .delete slug => some { s with mgr := s.mgr.delete slug }
  | .sweepLimiters => some { s with mgr := s.mgr.sweepLimiters }
  | .tryAcquire k =>
    match s.mgr.tryAcquire k with
    | (mgr, some (some a)) =>
      some { s with mgr, permits := (k, a) :: s.permits, admitted := s.mgr.maxOf k.1 :: s.admitted }
    | (mgr, _) => some { s with mgr }
  | .dropPermit i =>
    s.permits[i]?.map fun p => { s with mgr := s.mgr.dropPermit p.2, permits := s.permits.eraseIdx i }
  | .readCeiling k =>
    some { s with ticks := ⟨k, s.mgr.getCeiling k, none, s.epoch k.1⟩ :: s.ticks }
  | .readInflight i =>
    s.ticks[i]?.map fun t =>
      { s with ticks := s.ticks.set i { t with inflight := some (s.mgr.getInflight t.key) } }
  | .write i scrape =>
    match s.writes cfg i scrape with
    | none => some { s with ticks := s.ticks.eraseIdx i }
    | some (t, c) =>
      some { s with mgr := s.mgr.setCeiling fromJson t.key c
                    ticks := s.ticks.eraseIdx i
                    moved := fun k => s.moved k ||
                      (decide (k = t.key ∧ t.epoch = s.epoch k.1) && s.Reaches fromJson t.key) }

/-- A gateway that has just read its table. -/
def Started : Prop := ∃ rows, s = { mgr := .new fromJson rows }

/-- Is the replica one of those the row is served with? -/
def Serves (k : LimiterKey) : Prop := k.2 ∈ (s.mgr.resolvedReplicas k.1).map DiscoveredReplica.id

/-- **The cap is respected.** -/
structure CapRespected : Prop where
  /-- a row with a cap of zero admits nothing -/
  zero : ∀ cap ∈ s.admitted, cap ≠ 0
  /-- the ceiling is the cap until a tick that read it after the last edit of the cap
  changes it -/
  edited : ∀ (k : LimiterKey) ep c, s.mgr.map[k.1]? = some ep → 0 ≤ ep.maxConcurrency → s.Serves k →
    s.mgr.getCeiling k = some c → s.moved k = false → c = ep.maxConcurrency

/-- The steps that do not go wrong: a tick does not write the ceiling of a row whose cap is
zero, and writes one that no tick has moved since the last edit of the cap only if it
has read it after that edit or writes the cap; and a request to a row whose cap is zero
is for one of the replicas that it is served with now. -/
def Orderly : CeilingInput J K → Prop
  | .write i scrape => ∀ w ∈ s.writes cfg i scrape, ∀ ep ∈ s.mgr.map[w.1.key.1]?,
      s.Reaches fromJson w.1.key = true → s.Serves w.1.key → ep.maxConcurrency ≠ 0 ∧
        (s.moved w.1.key = true ∨ w.1.epoch = s.epoch w.1.key.1 ∨ max w.2 1 = ep.maxConcurrency)
  | .tryAcquire k => s.mgr.maxOf k.1 = 0 → s.Serves k
  | _ => True

instance (k : LimiterKey) : Decidable (s.Serves k) := inferInstanceAs (Decidable (_ ∈ _))

instance : ∀ i, Decidable (s.Orderly fromJson cfg i)
  | .write _ _ => inferInstanceAs (Decidable (∀ _ ∈ _, ∀ _ ∈ _, _ → _ → _))
  | .tryAcquire _ => inferInstanceAs (Decidable (_ → _))
  | .upsertMirror _ | .delete _ | .sweepLimiters | .dropPermit _ | .readCeiling _ | .readInflight _ => .isTrue trivial

end CeilingState

/-! ## What happens to the ceilings -/

section Ceilings

variable {fromJson} {ps : List (LimiterKey × ℕ)} {m : ExternalEndpointMgr J} {k k' : LimiterKey}

omit [DecidableEq J]

/-- A ceiling is stored in the limiter of one key. -/
theorem getCeiling_storeCeiling (h : Counts ps m) {a : ℕ} (ha : m.limiters[k]? = some a) (c : ℤ) (k' : LimiterKey) :
    (m.storeCeiling a c).getCeiling k' = if k' = k then some c else m.getCeiling k' := by
  have hl : (m.storeCeiling a c).limiters = m.limiters := rfl
  rw [ExternalEndpointMgr.getCeiling, hl, ExternalEndpointMgr.getCeiling]
  by_cases hk : k' = k
  · rw [if_pos hk, hk, ha, Option.map_some, ExternalEndpointMgr.storeCeiling_ceiling, if_pos rfl]
  · rw [if_neg hk]
    rcases hb : m.limiters[k']? with _ | b
    · rfl
    · have hne : b ≠ a := fun hab => hk (h.inj k' k a (hab ▸ hb) ha)
      rw [Option.map_some, Option.map_some, ExternalEndpointMgr.storeCeiling_ceiling, if_neg hne]

theorem getCeiling_alloc (h : Counts ps m) (k : LimiterKey) (c : ℤ) (k' : LimiterKey) :
    (m.alloc k c).getCeiling k' = if k' = k then some c else m.getCeiling k' := by
  have hl : (m.alloc k c).limiters = m.limiters.insert k m.fresh := rfl
  rw [ExternalEndpointMgr.getCeiling, hl, BTreeMap.get_insert]
  by_cases hk : k' = k
  · rw [if_pos hk, if_pos hk, Option.map_some, ExternalEndpointMgr.alloc_heap, if_pos rfl]
    rfl
  · rw [if_neg hk, if_neg hk, ExternalEndpointMgr.getCeiling]
    rcases hb : m.limiters[k']? with _ | b
    · rfl
    · rw [Option.map_some, Option.map_some, ExternalEndpointMgr.alloc_heap, if_neg (Nat.ne_of_lt (h.used k' b hb))]

theorem getCeiling_seat (h : Counts ps m) (slug : String) (c : ℤ) (r : DiscoveredReplica) (k' : LimiterKey) :
    (m.seat slug c r).getCeiling k' = if k' = (slug, r.id) then some c else m.getCeiling k' := by
  unfold ExternalEndpointMgr.seat
  split
  next a ha => exact getCeiling_storeCeiling h ha c k'
  next => exact getCeiling_alloc h _ c k'

/-- A loop that gives each replica of a list the ceiling. -/
theorem getCeiling_foldl {f : ExternalEndpointMgr J → DiscoveredReplica → ExternalEndpointMgr J} {slug : String} {c : ℤ}
    (hf : ∀ m r, Counts ps m → Counts ps (f m r)) (hc : ∀ m r, Counts ps m → (f m r).getCeiling k' =
      if k' = (slug, r.id) then some c else m.getCeiling k') (h : Counts ps m) (l : List DiscoveredReplica) :
    (l.foldl f m).getCeiling k' =
      if k'.1 = slug ∧ k'.2 ∈ l.map DiscoveredReplica.id then some c else m.getCeiling k' := by
  induction l generalizing m with
  | nil => simp
  | cons r l ih =>
    rw [List.foldl_cons, ih (hf m r h), hc m r h]
    by_cases hin : k'.1 = slug ∧ k'.2 ∈ l.map DiscoveredReplica.id
    · rw [if_pos hin, if_pos ⟨hin.1, List.mem_cons_of_mem _ hin.2⟩]
    · rw [if_neg hin]
      by_cases hk : k' = (slug, r.id)
      · rw [if_pos hk, if_pos]
        rw [hk]
        exact ⟨rfl, List.mem_cons_self⟩
      · rw [if_neg hk, if_neg]
        rintro ⟨hslug, hmem⟩
        rcases List.mem_cons.mp hmem with heq | hmem
        · exact hk (Prod.ext hslug heq)
        · exact hin ⟨hslug, hmem⟩

theorem getCeiling_seats (h : Counts ps m) (slug : String) (c : ℤ) (l : List DiscoveredReplica) (k' : LimiterKey) :
    (l.foldl (fun m r => m.seat slug c r) m).getCeiling k' =
      if k'.1 = slug ∧ k'.2 ∈ l.map DiscoveredReplica.id then some c else m.getCeiling k' :=
  getCeiling_foldl (fun _ r h => h.seat slug c r) (fun _ r h => getCeiling_seat h slug c r k') h l

theorem getCeiling_allocs (h : Counts [] m) (slug : String) (c : ℤ) (l : List DiscoveredReplica) (k' : LimiterKey) :
    (l.foldl (fun m r => m.alloc (slug, r.id) c) m).getCeiling k' =
      if k'.1 = slug ∧ k'.2 ∈ l.map DiscoveredReplica.id then some c else m.getCeiling k' :=
  getCeiling_foldl (fun _ _ h => h.alloc (by simp) c) (fun _ r h => getCeiling_alloc h (slug, r.id) c k') h l

/-- What is kept keeps its ceiling. -/
theorem getCeiling_retain {p : LimiterKey → ConcurrencyLimiter → Bool} :
    (m.retain p).getCeiling k' = m.getCeiling k' ∨ (m.retain p).getCeiling k' = none := by
  have hl : (m.retain p).limiters = m.limiters.filter fun k a => p k (m.heap a) := rfl
  rw [ExternalEndpointMgr.getCeiling, hl]
  rcases hb : (m.limiters.filter fun k a => p k (m.heap a))[k']? with _ | b
  · exact .inr rfl
  · rw [ExternalEndpointMgr.getCeiling, (Counts.get_filter_eq_some.mp hb).1]
    exact .inl rfl

/-- The other rows keep their limiters. -/
theorem getCeiling_retain_of {p : LimiterKey → ConcurrencyLimiter → Bool} (hp : ∀ l, p k' l = true) :
    (m.retain p).getCeiling k' = m.getCeiling k' := by
  have hl : (m.retain p).limiters = m.limiters.filter fun k a => p k (m.heap a) := rfl
  rw [ExternalEndpointMgr.getCeiling, hl, ExternalEndpointMgr.getCeiling]
  rcases hb : m.limiters[k']? with _ | b
  · rcases hc : (m.limiters.filter fun k a => p k (m.heap a))[k']? with _ | c
    · rfl
    · rw [(Counts.get_filter_eq_some.mp hc).1] at hb
      cases hb
  · rw [Counts.get_filter_eq_some.mpr ⟨hb, hp _⟩]
    rfl

/-- The loop of an edit that stores the cap, over a part of the limiters. -/
theorem getCeiling_storeLoop {m₁ : ExternalEndpointMgr J} {l : List (LimiterKey × ℕ)} {slug : String} {c : ℤ}
    (h : Counts ps m₁) (hl : m₁.limiters = m.limiters) (hmem : ∀ e ∈ l, m.limiters[e.1]? = some e.2) (k' : LimiterKey) :
    (l.foldl (fun m e => if e.1.1 = slug then m.storeCeiling e.2 c else m) m₁).getCeiling k' =
      if k'.1 = slug ∧ k' ∈ l.map Prod.fst then some c else m₁.getCeiling k' := by
  induction l generalizing m₁ with
  | nil => simp
  | cons e l ih =>
    rw [List.foldl_cons]
    have hrest : ∀ x ∈ l, m.limiters[x.1]? = some x.2 := fun x hx => hmem x (List.mem_cons_of_mem _ hx)
    have he := hmem e List.mem_cons_self
    by_cases hslug : e.1.1 = slug
    · rw [if_pos hslug, ih (h.storeCeiling e.2 c) hl hrest, getCeiling_storeCeiling h (hl ▸ he)]
      by_cases hk : k' = e.1
      · have hin : k'.1 = slug ∧ k' ∈ (e :: l).map Prod.fst := ⟨hk ▸ hslug, hk ▸ List.mem_cons_self⟩
        rw [if_pos hin, if_pos hk, ite_self]
      · have hiff : k' ∈ (e :: l).map Prod.fst ↔ k' ∈ l.map Prod.fst := by
          rw [List.map_cons, List.mem_cons, or_iff_right hk]
        simp only [hiff, if_neg hk]
    · rw [if_neg hslug, ih h hl hrest]
      have hiff : (k'.1 = slug ∧ k' ∈ (e :: l).map Prod.fst) ↔ (k'.1 = slug ∧ k' ∈ l.map Prod.fst) := by
        refine and_congr_right fun hk => ?_
        rw [List.map_cons, List.mem_cons]
        refine or_iff_right ?_
        rintro rfl
        exact hslug hk
      simp only [hiff]

/-- All limiters of a row get the ceiling. -/
theorem getCeiling_storeAll (h : Counts ps m) (slug : String) (c : ℤ) (k' : LimiterKey) :
    (m.storeAll slug c).getCeiling k' =
      if k'.1 = slug then (m.getCeiling k').map fun _ => c else m.getCeiling k' := by
  rw [ExternalEndpointMgr.storeAll, getCeiling_storeLoop h rfl fun e he => BTreeMap.mem_toList.mp he]
  rw [ExternalEndpointMgr.getCeiling]
  rcases hk : m.limiters[k']? with _ | a
  · have hnot : k' ∉ m.limiters.toList.map Prod.fst := by
      intro hmem
      obtain ⟨e, he, rfl⟩ := List.mem_map.mp hmem
      rw [BTreeMap.mem_toList.mp he] at hk
      cases hk
    rw [if_neg fun h => hnot h.2, Option.map_none, Option.map_none, ite_self]
  · have hin : k' ∈ m.limiters.toList.map Prod.fst := List.mem_map.mpr ⟨(k', a), BTreeMap.mem_toList.mpr hk, rfl⟩
    by_cases hslug : k'.1 = slug
    · rw [if_pos ⟨hslug, hin⟩, if_pos hslug]
      rfl
    · rw [if_neg fun h => hslug h.1, if_neg hslug]

/-- `set_ceiling`. -/
theorem getCeiling_setCeiling (h : Counts ps m) (k : LimiterKey) (c : ℤ) (k' : LimiterKey) :
    (m.setCeiling fromJson k c).getCeiling k' =
      if k' = k ∧ (m.isDynamic fromJson k.1 k.2 && (m.limiters[k]?).isSome) = true then some (max c 1)
      else m.getCeiling k' := by
  unfold ExternalEndpointMgr.setCeiling
  by_cases hdyn : m.isDynamic fromJson k.1 k.2 = true
  · rw [if_pos hdyn]
    rcases ha : m.limiters[k]? with _ | a
    · simp
    · dsimp only
      rw [getCeiling_storeCeiling h ha]
      simp [hdyn]
  · rw [if_neg hdyn]
    simp [hdyn]

theorem getCeiling_withLimiter (h : Counts ps m) (k : LimiterKey) (c : ℤ) (k' : LimiterKey) :
    (m.withLimiter k c).getCeiling k' = if k' = k then some ((m.getCeiling k).getD c) else m.getCeiling k' := by
  unfold ExternalEndpointMgr.withLimiter
  rcases ha : m.limiters[k]? with _ | a
  · dsimp only
    have hnone : m.getCeiling k = none := by rw [ExternalEndpointMgr.getCeiling, ha, Option.map_none]
    rw [getCeiling_alloc h, hnone, Option.getD_none]
  · dsimp only
    by_cases hk : k' = k
    · rw [if_pos hk, hk, ExternalEndpointMgr.getCeiling, ha]
      rfl
    · rw [if_neg hk]

/-- What is in flight does not matter to a ceiling. -/
theorem getCeiling_update {n : ExternalEndpointMgr J} {a : ℕ} {l : ConcurrencyLimiter} (hlimiters : n.limiters = m.limiters)
    (hheap : n.heap = Function.update m.heap a l) (hl : l.ceiling = (m.heap a).ceiling) :
    n.getCeiling k' = m.getCeiling k' := by
  unfold ExternalEndpointMgr.getCeiling
  rw [hlimiters, hheap]
  refine congrArg (fun f => Option.map f _) (funext fun b => ?_)
  rw [Function.update_apply]
  by_cases hb : b = a
  · rw [if_pos hb, hb, hl]
  · rw [if_neg hb]

theorem getCeiling_countIn (a : ℕ) : (m.countIn a).getCeiling k' = m.getCeiling k' := getCeiling_update rfl rfl rfl

theorem getCeiling_dropPermit (a : ℕ) : (m.dropPermit a).getCeiling k' = m.getCeiling k' :=
  getCeiling_update rfl rfl rfl

/-- A new limiter leaves the mirror as it is. -/
theorem mirror_withLimiter (m : ExternalEndpointMgr J) (k : LimiterKey) (c : ℤ) :
    (m.withLimiter k c).map = m.map ∧ (m.withLimiter k c).resolvedBackends = m.resolvedBackends := by
  unfold ExternalEndpointMgr.withLimiter
  split
  next => exact ⟨rfl, rfl⟩
  next => exact ⟨rfl, rfl⟩

theorem mirror_setCeiling (m : ExternalEndpointMgr J) (k : LimiterKey) (c : ℤ) :
    (m.setCeiling fromJson k c).map = m.map ∧
      (m.setCeiling fromJson k c).resolvedBackends = m.resolvedBackends := by
  unfold ExternalEndpointMgr.setCeiling
  split
  next =>
    split
    next => exact ⟨rfl, rfl⟩
    next => exact ⟨rfl, rfl⟩
  next => exact ⟨rfl, rfl⟩

end Ceilings

/-! ## What an edit does -/

section Edit

variable {fromJson} {ps : List (LimiterKey × ℕ)} {m m₁ : ExternalEndpointMgr J} {ep : ExternalEndpoint J}
  {k : LimiterKey} {c : ℤ}

/-- What an edit has done to the gateway: the other rows are as they were, and the row's
limiters have the new cap, or nothing has happened to them and the cap is the old one. -/
structure Edited (fromJson : J → Option BackendConfig) (m : ExternalEndpointMgr J) (ep : ExternalEndpoint J)
    (m' : ExternalEndpointMgr J) : Prop where
  map : m'.map = m.map.insert ep.slug ep
  filed : (m'.resolvedBackends[ep.slug]?).isSome = true
  others : ∀ slug : String, slug ≠ ep.slug → m'.resolvedBackends[slug]? = m.resolvedBackends[slug]?
  ceilings : ∀ k : LimiterKey, k.1 ≠ ep.slug → m'.getCeiling k = m.getCeiling k
  capped : 0 ≤ ep.maxConcurrency → ∀ replicaId ∈ (m'.resolvedReplicas ep.slug).map DiscoveredReplica.id, ∀ c,
    m'.getCeiling (ep.slug, replicaId) = some c → c = ep.maxConcurrency ∨
      (m.maxChanged ep = false ∧ m'.resolvedBackends = m.resolvedBackends ∧
        m.getCeiling (ep.slug, replicaId) = some c)

omit [DecidableEq J] in
/-- The end of an edit leaves replicas that are there alone. -/
theorem finishUpsert_resolved {rs : List DiscoveredReplica} (h : m₁.resolvedBackends[ep.slug]? = some rs) :
    (ExternalEndpointMgr.finishUpsert fromJson m₁ ep).resolvedBackends = m₁.resolvedBackends := by
  unfold ExternalEndpointMgr.finishUpsert
  rw [h]

omit [DecidableEq J] in
theorem finishUpsert_others {slug : String} (hslug : slug ≠ ep.slug) :
    (ExternalEndpointMgr.finishUpsert fromJson m₁ ep).resolvedBackends[slug]? = m₁.resolvedBackends[slug]? := by
  unfold ExternalEndpointMgr.finishUpsert
  dsimp only
  split
  next => rfl
  next =>
    split
    next => exact BTreeMap.get_insert_of_ne hslug
    next => rfl

omit [DecidableEq J] in
/-- Something to serve with is there in the end. -/
theorem finishUpsert_filed_of (h : (m₁.resolvedBackends[ep.slug]?).isSome = true ∨
    ∃ rs, resolveReplicas fromJson ep = .ok rs) :
    ((ExternalEndpointMgr.finishUpsert fromJson m₁ ep).resolvedBackends[ep.slug]?).isSome = true := by
  unfold ExternalEndpointMgr.finishUpsert
  rcases hm : m₁.resolvedBackends[ep.slug]? with _ | rs
  · rw [hm] at h
    obtain h | ⟨rs, hrs⟩ := h
    · cases h
    · dsimp only
      rw [hrs]
      simp
  · dsimp only
    rw [hm]
    rfl

omit [DecidableEq J] in
theorem resolvedReplicas_of {slug : String} {rs : List DiscoveredReplica} (h : m.resolvedBackends[slug]? = some rs) :
    m.resolvedReplicas slug = rs := by
  rw [ExternalEndpointMgr.resolvedReplicas, h, Option.getD_some]

omit [DecidableEq J] in
/-- An edit with new replicas. -/
theorem edited_reseat (h : Counts ps m) {resolved : List DiscoveredReplica}
    (hm₁ : m₁ = if 0 ≤ ep.maxConcurrency then m.reseat ep.slug ep.maxConcurrency resolved else m) :
    Edited fromJson m ep (ExternalEndpointMgr.finishUpsert fromJson
      { m₁ with resolvedBackends := m₁.resolvedBackends.insert ep.slug resolved } ep) := by
  have hmirror : m₁.map = m.map ∧ m₁.resolvedBackends = m.resolvedBackends := by
    rw [hm₁]
    split
    next => exact seats_mirror _ _ _ _
    next => exact ⟨rfl, rfl⟩
  have hself : (m₁.resolvedBackends.insert ep.slug resolved)[ep.slug]? = some resolved :=
    BTreeMap.get_insert_self ..
  have hres : (ExternalEndpointMgr.finishUpsert fromJson
      { m₁ with resolvedBackends := m₁.resolvedBackends.insert ep.slug resolved } ep).resolvedBackends =
        m₁.resolvedBackends.insert ep.slug resolved := finishUpsert_resolved hself
  refine ⟨?_, ?_, fun slug hslug => ?_, fun k hk => ?_, fun hmax id hid c hc => .inl ?_⟩
  · rw [ExternalEndpointMgr.finishUpsert_map, hmirror.1]
  · rw [hres, hself]
    rfl
  · rw [hres, BTreeMap.get_insert_of_ne hslug, hmirror.2]
  · have hceil : m₁.getCeiling k = m.getCeiling k := by
      rw [hm₁]
      split
      next =>
        rw [ExternalEndpointMgr.reseat, getCeiling_seats (h.retain fun k l hl => by simp [hl]),
          if_neg fun hin => hk hin.1, getCeiling_retain_of fun l => by simp [hk]]
      next => rfl
    exact hceil
  · rw [resolvedReplicas_of ((congrArg (·[ep.slug]?) hres).trans hself)] at hid
    have hceil : m₁.getCeiling (ep.slug, id) = some ep.maxConcurrency := by
      rw [hm₁, if_pos hmax, ExternalEndpointMgr.reseat, getCeiling_seats (h.retain fun k l hl => by simp [hl]),
        if_pos ⟨rfl, hid⟩]
    exact (Option.some.inj (hceil.symm.trans hc)).symm

omit [DecidableEq J] in
/-- An edit that gives all replicas the cap. -/
theorem edited_seats (hmirror : m₁.map = m.map) (hceil : ∀ k, m₁.getCeiling k = m.getCeiling k)
    (hcounts : Counts ps m₁) {resolved : List DiscoveredReplica}
    (hself : m₁.resolvedBackends[ep.slug]? = some resolved)
    (hothers : ∀ slug : String, slug ≠ ep.slug → m₁.resolvedBackends[slug]? = m.resolvedBackends[slug]?) :
    Edited fromJson m ep (ExternalEndpointMgr.finishUpsert fromJson
      (resolved.foldl (fun m r => m.seat ep.slug ep.maxConcurrency r) m₁) ep) := by
  obtain ⟨hmap, hres₁⟩ := seats_mirror m₁ ep.slug ep.maxConcurrency resolved
  have hself₁ : (resolved.foldl (fun m r => m.seat ep.slug ep.maxConcurrency r) m₁).resolvedBackends[ep.slug]? =
      some resolved := (congrArg (·[ep.slug]?) hres₁).trans hself
  have hres : (ExternalEndpointMgr.finishUpsert fromJson
      (resolved.foldl (fun m r => m.seat ep.slug ep.maxConcurrency r) m₁) ep).resolvedBackends =
        m₁.resolvedBackends := (finishUpsert_resolved hself₁).trans hres₁
  refine ⟨?_, ?_, fun slug hslug => ?_, fun k hk => ?_, fun _ id hid c hc => .inl ?_⟩
  · rw [ExternalEndpointMgr.finishUpsert_map, hmap, hmirror]
  · rw [hres, hself]
    rfl
  · rw [hres, hothers slug hslug]
  · refine (getCeiling_seats hcounts _ _ _ _).trans ?_
    rw [if_neg fun hin => hk hin.1, hceil]
  · rw [resolvedReplicas_of ((congrArg (·[ep.slug]?) hres).trans hself)] at hid
    have hval := getCeiling_seats hcounts ep.slug ep.maxConcurrency resolved (ep.slug, id)
    rw [if_pos ⟨rfl, hid⟩] at hval
    exact (Option.some.inj (hval.symm.trans hc)).symm

omit [DecidableEq J] in
/-- An edit that leaves the limiters alone, since the cap is the old one. -/
theorem edited_plain (hmirror : m₁.map = m.map) (hres : m₁.resolvedBackends = m.resolvedBackends)
    (hfiled : (m.resolvedBackends[ep.slug]?).isSome = true ∨ ∃ rs, resolveReplicas fromJson ep = .ok rs)
    (hothers : ∀ k : LimiterKey, k.1 ≠ ep.slug → m₁.getCeiling k = m.getCeiling k)
    (hown : 0 ≤ ep.maxConcurrency → ∀ (k : LimiterKey) c, k.1 = ep.slug → m₁.getCeiling k = some c →
      c = ep.maxConcurrency ∨
      (m.maxChanged ep = false ∧ (m.resolvedBackends[ep.slug]?).isSome = true ∧ m.getCeiling k = some c)) :
    Edited fromJson m ep (ExternalEndpointMgr.finishUpsert fromJson m₁ ep) := by
  refine ⟨?_, finishUpsert_filed_of (hres ▸ hfiled), fun slug hslug => ?_, hothers, fun hmax id _ c hc => ?_⟩
  · rw [ExternalEndpointMgr.finishUpsert_map, hmirror]
  · rw [finishUpsert_others hslug, hres]
  · rcases hown hmax (ep.slug, id) c rfl hc with hcap | ⟨hsame, hsome, hold⟩
    · exact .inl hcap
    · obtain ⟨rs, hrs⟩ := Option.isSome_iff_exists.mp hsome
      refine .inr ⟨hsame, ?_, hold⟩
      rw [finishUpsert_resolved (hres ▸ hrs), hres]

omit [DecidableEq J] in
theorem maxChanged_eq_false {e : ExternalEndpoint J} : m.maxChanged e = false ↔
    ∃ row, m.map[e.slug]? = some row ∧ row.maxConcurrency = e.maxConcurrency := by
  rw [ExternalEndpointMgr.maxChanged, bne_eq_false_iff_eq, Option.map_eq_some_iff]

/-- **An edit** of a row, unless its replicas cannot be resolved. -/
theorem edited_upsertMirror (h : Counts ps m)
    (hfiled : ∀ slug : String, (m.map[slug]?).isSome = true → (m.resolvedBackends[slug]?).isSome = true) :
    m.upsertMirror fromJson ep = m ∨ Edited fromJson m ep (m.upsertMirror fromJson ep) := by
  -- what there is to serve with where the backends are not new
  have hserve : ¬ ((ep.cfg fromJson).isSome && m.backendsChanged ep) = true →
      (m.resolvedBackends[ep.slug]?).isSome = true ∨ ∃ rs, resolveReplicas fromJson ep = .ok rs := by
    intro hnew
    rcases hcfg : ep.cfg fromJson with _ | cfg
    · exact .inr ⟨_, by rw [resolveReplicas, hcfg]⟩
    · rw [hcfg, Option.isSome_some, Bool.true_and, Bool.not_eq_true, ExternalEndpointMgr.backendsChanged,
        bne_eq_false_iff_eq, Option.map_eq_some_iff] at hnew
      obtain ⟨row, hrow, -⟩ := hnew
      exact .inl (hfiled ep.slug (by rw [hrow]; rfl))
  have hold : m.maxChanged ep = false → (m.resolvedBackends[ep.slug]?).isSome = true := by
    intro hsame
    obtain ⟨row, hrow, -⟩ := maxChanged_eq_false.mp hsame
    exact hfiled ep.slug (by rw [hrow]; rfl)
  unfold ExternalEndpointMgr.upsertMirror
  split
  next =>
    split
    next => exact .inl rfl
    next => exact .inr (edited_reseat h rfl)
  next hnew =>
    right
    split
    next hmetrics =>
      split
      next =>
        rcases hm : m.resolvedBackends[ep.slug]? with _ | old
        · have hcounts : ∀ rs, Counts ps { m with resolvedBackends := m.resolvedBackends.insert ep.slug rs } :=
            fun _ => h.congr rfl rfl rfl
          refine edited_seats ?_ ?_ (hcounts _) ?_ ?_
          · rfl
          · exact fun _ => rfl
          · exact BTreeMap.get_insert_self ..
          · exact fun slug hslug => BTreeMap.get_insert_of_ne hslug
        · exact edited_seats rfl (fun _ => rfl) h hm fun _ _ => rfl
      next hsame =>
        rw [Bool.or_eq_true, not_or, Bool.not_eq_true] at hsame
        refine edited_plain rfl rfl (hserve hnew) (fun _ _ => rfl) fun _ k c _ hc => ?_
        exact .inr ⟨hsame.1, hold hsame.1, hc⟩
    next =>
      split
      next hchanged =>
        refine edited_plain (m.storeAll_map _ _) (m.storeAll_resolvedBackends _ _) (hserve hnew)
          (fun k hk => ?_) fun _ k c hk hc => .inl ?_
        · rw [getCeiling_storeAll h, if_neg hk]
        · rw [getCeiling_storeAll h, if_pos hk, Option.map_eq_some_iff] at hc
          obtain ⟨_, -, rfl⟩ := hc
          rfl
      next hsame =>
        refine edited_plain rfl rfl (hserve hnew) (fun _ _ => rfl) fun hmax k c _ hc => ?_
        simp only [Bool.and_eq_true, Bool.or_eq_true, decide_eq_true_eq, not_and] at hsame
        have hmaxSame : m.maxChanged ep = false := by
          by_contra hne
          rw [Bool.not_eq_false] at hne
          exact hsame (.inl (.inl hne)) hmax
        exact .inr ⟨hmaxSame, hold hmaxSame, hc⟩

end Edit

namespace CeilingState

variable {fromJson} {cfg : CeilingConfig K} {s s' : CeilingState J} {m : ExternalEndpointMgr J}

/-! ## The invariant -/

/-- What the limiters of a gateway have to do with its rows; the keys of `moved` apart. -/
structure Capped (moved : LimiterKey → Bool) (m : ExternalEndpointMgr J) : Prop where
  filed : ∀ slug : String, (m.map[slug]?).isSome = true → (m.resolvedBackends[slug]?).isSome = true
  cap : ∀ (k : LimiterKey) ep c, m.map[k.1]? = some ep → 0 ≤ ep.maxConcurrency →
    k.2 ∈ (m.resolvedReplicas k.1).map DiscoveredReplica.id → m.getCeiling k = some c →
    (moved k = false ∨ ep.maxConcurrency = 0) → c = ep.maxConcurrency

omit [DecidableEq J] in
/-- Ceilings that are as they were, or gone. -/
theorem Capped.mono {moved moved' : LimiterKey → Bool} {m' : ExternalEndpointMgr J} (h : Capped moved m)
    (hmap : m'.map = m.map) (hres : m'.resolvedBackends = m.resolvedBackends)
    (hceil : ∀ k, m'.getCeiling k = m.getCeiling k ∨ m'.getCeiling k = none)
    (hmoved : ∀ k, moved' k = false → moved k = false) : Capped moved' m' := by
  refine ⟨fun slug => ?_, fun k ep c hep hmax hserves hc hnot => ?_⟩
  · rw [hmap, hres]
    exact h.filed slug
  · rw [hmap] at hep
    rw [ExternalEndpointMgr.resolvedReplicas, hres] at hserves
    rcases hceil k with hsame | hnone
    · exact h.cap k ep c hep hmax hserves (hsame ▸ hc) (hnot.imp_left (hmoved k))
    · rw [hnone] at hc
      cases hc

omit [DecidableEq J] in
/-- The limiters of a row at the start. -/
theorem getCeiling_seatRow (h : Counts [] m) {row : ExternalEndpoint J} {rs : List DiscoveredReplica}
    (hrs : resolveReplicas fromJson row = .ok rs) (k : LimiterKey) :
    (External.seatRow fromJson m row).getCeiling k =
      if 0 ≤ row.maxConcurrency ∧ k.1 = row.slug ∧ k.2 ∈ rs.map DiscoveredReplica.id then some row.maxConcurrency
      else m.getCeiling k := by
  have hrow : Counts [] { m with map := m.map.insert row.slug row } := h.congr rfl rfl rfl
  unfold External.seatRow
  rw [hrs]
  dsimp only
  by_cases hmax : 0 ≤ row.maxConcurrency
  · rw [if_pos hmax]
    refine (getCeiling_allocs hrow row.slug row.maxConcurrency rs k).trans ?_
    simp only [hmax, true_and]
    rfl
  · rw [if_neg hmax, if_neg fun h => hmax h.1]
    rfl

omit [DecidableEq J] in
/-- A row of the table at the start. -/
theorem Capped.seatRow (h : Capped (fun _ => false) m) (hcounts : Counts [] m) (row : ExternalEndpoint J) :
    Capped (fun _ => false) (External.seatRow fromJson m row) := by
  rcases hrs : resolveReplicas fromJson row with _ | rs
  · rw [External.seatRow, hrs]
    exact h
  obtain ⟨hmap, hres⟩ := seatRow_ok (m := m) hrs
  refine ⟨fun slug hslug => ?_, fun k ep c hep hmax hserves hc _ => ?_⟩
  · rw [hmap, BTreeMap.get_insert] at hslug
    rw [hres, BTreeMap.get_insert]
    by_cases hs : slug = row.slug
    · rw [if_pos hs]
      rfl
    · rw [if_neg hs] at hslug ⊢
      exact h.filed slug hslug
  · rw [hmap, BTreeMap.get_insert] at hep
    rw [ExternalEndpointMgr.resolvedReplicas, hres, BTreeMap.get_insert] at hserves
    rw [getCeiling_seatRow hcounts hrs] at hc
    by_cases hs : k.1 = row.slug
    · rw [if_pos hs] at hep hserves
      obtain rfl := Option.some.inj hep
      rw [if_pos ⟨hmax, hs, hserves⟩] at hc
      exact (Option.some.inj hc).symm
    · rw [if_neg hs] at hep hserves
      rw [if_neg fun hin => hs hin.2.1] at hc
      exact h.cap k ep c hep hmax hserves hc (.inl rfl)

omit [DecidableEq J] in
/-- A gateway that has just read its table. -/
theorem Capped.new (rows : List (ExternalEndpoint J)) :
    Capped (fun _ => false) (ExternalEndpointMgr.new fromJson rows) := by
  -- the loop, with the counts of the limiters made so far
  have hloop : ∀ (l : List (ExternalEndpoint J)) (m : ExternalEndpointMgr J), Counts [] m →
      Capped (fun _ => false) m → Capped (fun _ => false) (l.foldl (External.seatRow fromJson) m) := by
    intro l
    induction l with
    | nil => exact fun _ _ h => h
    | cons row l ih => exact fun m hcounts h => ih _ (hcounts.seatRow row) (h.seatRow hcounts row)
  have hempty : Counts [] (ExternalEndpointMgr.new fromJson []) := Counts.new []
  refine hloop rows {} hempty ⟨?_, ?_⟩
  · simp
  · simp

omit [DecidableEq J] in
/-- An edit of a row. Where it changes the cap, the keys of the row have not moved since. -/
theorem Capped.edited {moved moved' : LimiterKey → Bool} {m' : ExternalEndpointMgr J} {ep : ExternalEndpoint J}
    (h : Capped moved m) (hedit : Edited fromJson m ep m') (hothers : ∀ k, k.1 ≠ ep.slug → moved' k = moved k)
    (hsame : m.maxChanged ep = false → moved' = moved) : Capped moved' m' := by
  refine ⟨fun slug hslug => ?_, fun k row c hrow hmax hserves hc hnot => ?_⟩
  · by_cases hs : slug = ep.slug
    · rw [hs]
      exact hedit.filed
    · rw [hedit.map, BTreeMap.get_insert_of_ne hs] at hslug
      rw [hedit.others slug hs]
      exact h.filed slug hslug
  · obtain ⟨slug, id⟩ := k
    by_cases hs : slug = ep.slug
    · subst hs
      rw [hedit.map, BTreeMap.get_insert_self] at hrow
      obtain rfl := Option.some.inj hrow
      rcases hedit.capped hmax id hserves c hc with hcap | ⟨hold, hres, hceil⟩
      · exact hcap
      -- nothing has happened: the row that was there before has the same cap
      · obtain ⟨before, hbefore, hcap⟩ := maxChanged_eq_false.mp hold
        rw [hsame hold] at hnot
        rw [ExternalEndpointMgr.resolvedReplicas, hres] at hserves
        rw [← hcap] at hmax hnot ⊢
        exact h.cap (ep.slug, id) before c hbefore hmax hserves hceil hnot
    · rw [hedit.map, BTreeMap.get_insert_of_ne hs] at hrow
      rw [ExternalEndpointMgr.resolvedReplicas, hedit.others slug hs] at hserves
      rw [hedit.ceilings (slug, id) hs] at hc
      rw [hothers (slug, id) hs] at hnot
      exact h.cap (slug, id) row c hrow hmax hserves hc hnot

omit [DecidableEq J] in
/-- A deletion takes the row away, and leaves the limiters. -/
theorem Capped.delete {moved : LimiterKey → Bool} (h : Capped moved m) (slug : String) :
    Capped moved (m.delete slug) := by
  refine ⟨fun k hk => ?_, fun k ep c hep hmax hserves hc hnot => ?_⟩
  · rw [ExternalEndpointMgr.delete, BTreeMap.get_erase] at hk
    rw [ExternalEndpointMgr.delete, BTreeMap.get_erase]
    by_cases hs : k = slug
    · rw [if_pos hs] at hk
      cases hk
    · rw [if_neg hs] at hk ⊢
      exact h.filed k hk
  · rw [ExternalEndpointMgr.delete, BTreeMap.get_erase] at hep
    rw [ExternalEndpointMgr.resolvedReplicas, ExternalEndpointMgr.delete, BTreeMap.get_erase] at hserves
    by_cases hs : k.1 = slug
    · rw [if_pos hs] at hep
      cases hep
    · rw [if_neg hs] at hep hserves
      exact h.cap k ep c hep hmax hserves hc hnot

omit [DecidableEq J] in
/-- A limiter that a request makes has the cap. -/
theorem Capped.withLimiter {moved : LimiterKey → Bool} {ps : List (LimiterKey × ℕ)} (h : Capped moved m)
    (hcounts : Counts ps m) (k : LimiterKey) : Capped moved (m.withLimiter k (m.maxOf k.1)) := by
  obtain ⟨hmap, hres⟩ := mirror_withLimiter m k (m.maxOf k.1)
  refine ⟨fun slug => ?_, fun k' ep c hep hmax hserves hc hnot => ?_⟩
  · rw [hmap, hres]
    exact h.filed slug
  · rw [hmap] at hep
    rw [ExternalEndpointMgr.resolvedReplicas, hres] at hserves
    rw [getCeiling_withLimiter hcounts] at hc
    by_cases hk : k' = k
    · subst hk
      rw [if_pos rfl] at hc
      rcases hold : m.getCeiling k' with _ | c'
      · rw [hold, Option.getD_none, ExternalEndpointMgr.maxOf, hep] at hc
        exact (Option.some.inj hc).symm
      · rw [hold, Option.getD_some] at hc
        exact h.cap k' ep c hep hmax hserves (hold.trans hc) hnot
    · rw [if_neg hk] at hc
      exact h.cap k' ep c hep hmax hserves hc hnot

/-- What holds in every state. -/
structure Inv (s : CeilingState J) : Prop where
  counts : Counts s.permits s.mgr
  capped : Capped s.moved s.mgr
  zero : ∀ cap ∈ s.admitted, cap ≠ 0

omit [DecidableEq J] in
theorem Inv.started (h : s.Started fromJson) : Inv s := by
  obtain ⟨rows, rfl⟩ := h
  exact ⟨Counts.new rows, Capped.new rows, by simp⟩

/-- An edit. -/
theorem Inv.upsertMirror (h : Inv s) {ep : ExternalEndpoint J}
    (hnext : s.next fromJson cfg (.upsertMirror ep) = some s') : Inv s' := by
  have hcounts : Counts s.permits (s.mgr.upsertMirror fromJson ep) := h.counts.upsertMirror ep
  simp only [CeilingState.next] at hnext
  rcases edited_upsertMirror h.counts h.capped.filed with hsame | hedit
  · rw [hsame, if_pos rfl] at hnext
    obtain rfl := Option.some.inj hnext
    exact h
  · rw [hedit.map, BTreeMap.get_insert_self, Option.map_some] at hnext
    split at hnext
    next =>
      obtain rfl := Option.some.inj hnext
      exact ⟨hcounts, h.capped.edited hedit (fun _ _ => rfl) fun _ => rfl, h.zero⟩
    next hchanged =>
      obtain rfl := Option.some.inj hnext
      refine ⟨hcounts, h.capped.edited hedit (fun k hk => if_neg hk) fun hold => ?_, h.zero⟩
      obtain ⟨row, hrow, hcap⟩ := maxChanged_eq_false.mp hold
      rw [hrow, Option.map_some, hcap] at hchanged
      exact absurd rfl hchanged

omit [DecidableEq J] in
/-- A request to a row with a cap of zero is refused. -/
theorem Inv.refused (h : Inv s) {k : LimiterKey} {a : ℕ} (hserves : s.mgr.maxOf k.1 = 0 → s.Serves k)
    (ha : (s.mgr.withLimiter k (s.mgr.maxOf k.1)).limiters[k]? = some a)
    (hlt : ((s.mgr.withLimiter k (s.mgr.maxOf k.1)).heap a).inflight <
      ((s.mgr.withLimiter k (s.mgr.maxOf k.1)).heap a).ceiling) : s.mgr.maxOf k.1 ≠ 0 := by
  intro hzero
  have hcapped := h.capped.withLimiter h.counts k
  have hinflight := (h.counts.withLimiter k (s.mgr.maxOf k.1)).counted k a ha
  have hmirror := mirror_withLimiter s.mgr k (s.mgr.maxOf k.1)
  -- a slug without a row has no cap
  obtain ⟨ep, hep, hmax⟩ : ∃ ep, s.mgr.map[k.1]? = some ep ∧ ep.maxConcurrency = 0 := by
    rw [ExternalEndpointMgr.maxOf] at hzero
    rcases hep : s.mgr.map[k.1]? with _ | ep
    · rw [hep] at hzero
      cases hzero
    · rw [hep] at hzero
      exact ⟨ep, rfl, hzero⟩
  have hceil := hcapped.cap k ep _ (hmirror.1 ▸ hep) hmax.ge
    (by rw [ExternalEndpointMgr.resolvedReplicas, hmirror.2]; exact hserves hzero)
    (by rw [ExternalEndpointMgr.getCeiling, ha, Option.map_some]) (.inr hmax)
  omega

/-- A tick writes. -/
theorem Inv.write (h : Inv s) {i : ℕ} {scrape : Option (ScrapedMetrics K)}
    (hok : s.Orderly fromJson cfg (.write i scrape)) (hnext : s.next fromJson cfg (.write i scrape) = some s') :
    Inv s' := by
  simp only [CeilingState.next] at hnext
  split at hnext
  next =>
    obtain rfl := Option.some.inj hnext
    exact ⟨h.counts, h.capped, h.zero⟩
  next t c hwrites =>
    obtain rfl := Option.some.inj hnext
    have hmirror : (s.mgr.setCeiling fromJson t.key c).map = s.mgr.map ∧
        (s.mgr.setCeiling fromJson t.key c).resolvedBackends = s.mgr.resolvedBackends :=
      mirror_setCeiling s.mgr t.key c
    refine ⟨h.counts.setCeiling t.key c, ⟨fun slug => ?_, fun k ep c' hep hmax hserves hc hnot => ?_⟩, h.zero⟩
    · rw [hmirror.1, hmirror.2]
      exact h.capped.filed slug
    · rw [hmirror.1] at hep
      rw [ExternalEndpointMgr.resolvedReplicas, hmirror.2] at hserves
      rw [getCeiling_setCeiling h.counts] at hc
      rw [Bool.or_eq_false_iff] at hnot
      split at hc
      next hreach =>
        -- the ceiling that is written is the cap, or the tick has moved it
        obtain ⟨rfl, hreach⟩ := hreach
        obtain ⟨hpos, hseen⟩ := hok (t, c) hwrites ep hep hreach hserves
        have hstill := hnot.resolve_right hpos
        rcases hseen with hmoved | hepoch | hcap
        · exact absurd (hmoved.symm.trans hstill.1) (by decide)
        · have htrue : (decide (t.key = t.key ∧ t.epoch = s.epoch t.key.1) && s.Reaches fromJson t.key) = true := by
            rw [decide_eq_true ⟨rfl, hepoch⟩, Bool.true_and]
            exact hreach
          exact absurd (htrue.symm.trans hstill.2) (by decide)
        · exact (Option.some.inj hc).symm.trans hcap
      next => exact h.capped.cap k ep c' hep hmax hserves hc (hnot.imp_left And.left)

/-- **One step** keeps the invariant. -/
theorem Inv.next (h : Inv s) {i : CeilingInput J K} (hok : s.Orderly fromJson cfg i)
    (hnext : s.next fromJson cfg i = some s') : Inv s' := by
  cases i with
  | upsertMirror ep => exact h.upsertMirror hnext
  | delete slug =>
    obtain rfl := Option.some.inj hnext
    exact ⟨h.counts.congr rfl rfl rfl, h.capped.delete slug, h.zero⟩
  | sweepLimiters =>
    obtain rfl := Option.some.inj hnext
    exact ⟨h.counts.sweepLimiters, h.capped.mono rfl rfl (fun _ => getCeiling_retain) fun _ h => h, h.zero⟩
  | tryAcquire k =>
    simp only [CeilingState.next] at hnext
    obtain ⟨-, heq⟩ | ⟨-, a, ha, heq | ⟨hlt, heq⟩⟩ := s.mgr.tryAcquire_cases k
    · rw [heq] at hnext
      obtain rfl := Option.some.inj hnext
      exact h
    · rw [heq] at hnext
      obtain rfl := Option.some.inj hnext
      exact ⟨h.counts.withLimiter k _, h.capped.withLimiter h.counts k, h.zero⟩
    · rw [heq] at hnext
      obtain rfl := Option.some.inj hnext
      refine ⟨(h.counts.withLimiter k _).countIn ha, ?_, fun cap hcap => ?_⟩
      · exact (h.capped.withLimiter h.counts k).mono rfl rfl (fun _ => .inl (getCeiling_countIn a)) fun _ h => h
      · rcases List.mem_cons.mp hcap with rfl | hcap
        · exact h.refused hok ha hlt
        · exact h.zero cap hcap
  | dropPermit j =>
    obtain ⟨p, hp, rfl⟩ := Option.map_eq_some_iff.mp hnext
    exact ⟨h.counts.dropPermit hp,
      h.capped.mono rfl rfl (fun _ => .inl (getCeiling_dropPermit p.2)) fun _ h => h, h.zero⟩
  | readCeiling k =>
    obtain rfl := Option.some.inj hnext
    exact ⟨h.counts, h.capped, h.zero⟩
  | readInflight j =>
    obtain ⟨t, -, rfl⟩ := Option.map_eq_some_iff.mp hnext
    exact ⟨h.counts, h.capped, h.zero⟩
  | write j scrape => exact h.write hok hnext

/-- **The cap is respected** in every run of edits, requests and ticks whose steps are
orderly. -/
theorem cap_respected_of_orderly
    (h : Reach (CeilingState.next fromJson cfg) (Started fromJson) (Orderly fromJson cfg) s) : s.CapRespected := by
  have hinv := h.invariant (fun _ => Inv.started) fun _ _ _ hinv hok hnext => hinv.next hok hnext
  exact ⟨hinv.zero, fun k ep c hep hmax hserves hc hnot => hinv.capped.cap k ep c hep hmax hserves hc (.inl hnot)⟩

/-! ## Two runs -/

/-- The settings of the controller, with the cache's share as a fraction. -/
def ceilingConfig : CeilingConfig ℚ := ⟨9 / 10, 8⟩

/-- An idle replica. -/
def idleMetrics : ScrapedMetrics ℚ := ⟨0, 0⟩

/-- A row with a cap of one is served, its ceiling raised, and then its cap edited. -/
def raisedThenEdited : List (CeilingInput BackendConfig ℚ) :=
  [.upsertMirror (PermitState.cappedRow 1), .tryAcquire ("m", "default"), .readCeiling ("m", "default"),
    .readInflight 0, .write 0 (some idleMetrics), .tryAcquire ("m", "default"), .upsertMirror (PermitState.cappedRow 3)]

theorem cap_respected_raised : ∃ s : CeilingState BackendConfig, s.CapRespected ∧ s.permits.length = 2 ∧
    s.mgr.getCeiling ("m", "default") = some 3 := by
  have hrun : ((exec (CeilingState.next some ceilingConfig) (Orderly some ceilingConfig) { mgr := .new some [] }
      raisedThenEdited).map fun s => (s.permits.length, s.mgr.getCeiling ("m", "default"))) = some (2, some 3) := by
    decide +kernel
  obtain ⟨s, hs, heq⟩ := Option.map_eq_some_iff.mp hrun
  exact ⟨s, cap_respected_of_orderly (Reach.of_exec _ _ (.init ⟨[], rfl⟩) hs), congrArg Prod.fst heq,
    congrArg Prod.snd heq⟩

/-- A row with a cap of zero, a tick while it is idle, and a request. -/
def raisedFromZero : List (CeilingInput BackendConfig ℚ) :=
  [.upsertMirror (PermitState.cappedRow 0), .tryAcquire ("m", "default"), .readCeiling ("m", "default"),
    .readInflight 0, .write 0 (some idleMetrics), .tryAcquire ("m", "default")]

/-- The controller takes an idle row with a cap of zero for one in demand, and the next
request is admitted. -/
theorem zero_cap_admitted : ∃ s : CeilingState BackendConfig,
    Reach (CeilingState.next some ceilingConfig) (Started some) (fun _ _ => True) s ∧ s.admitted = [0] ∧
      ¬ s.CapRespected := by
  have hrun : ((exec (CeilingState.next some ceilingConfig) (fun _ _ => True) { mgr := .new some [] }
      raisedFromZero).map CeilingState.admitted) = some [0] := by decide +kernel
  obtain ⟨s, hs, heq⟩ := Option.map_eq_some_iff.mp hrun
  refine ⟨s, Reach.of_exec _ _ (.init ⟨[], rfl⟩) hs, heq, fun h => h.zero 0 ?_ rfl⟩
  rw [heq]
  exact List.mem_singleton_self 0

end CeilingState

end Inferx.Gateway.External
