import Mathlib.Data.Int.Order.Basic
import Mathlib.Logic.Function.Basic
import Inferx.Lib.Map

/-!
# External endpoints

`ExternalEndpointMgr`: the rows of the table `ExternalEndpoint`, mirrored in the
gateway, the replicas that each row resolves to, and the limiters that count the
requests in flight to a replica of a capped row. Limiters are shared: a permit holds
the address of its limiter, and the map of limiters has the address that new requests
will use. `heap` has what is at an address.

A column of JSON is of any type, read by a given function (`fromJson`). The HTTP
client, the provider's key and the published flag are not read here.
-/

namespace Inferx.Gateway.External

/-- `ReplicaId`. -/
abbrev ReplicaId : Type := String

/-- A replica that requests can be sent to. -/
structure DiscoveredReplica where
  id : ReplicaId
  baseUrl : String
  metricsUrl : Option String
  deriving DecidableEq, Repr

/-- A replica as the column `backends` gives it. -/
structure ReplicaConfig where
  baseUrl : String
  metricsUrl : Option String := none
  id : Option String := none
  deriving DecidableEq, Repr

inductive BackendConfig where
  | explicit (replicas : List ReplicaConfig)
  deriving DecidableEq, Repr

/-- A row of `ExternalEndpoint`. -/
structure ExternalEndpoint (J : Type) where
  slug : String
  baseUrl : String
  upstreamModel : String
  providerApiKey : String
  published : Bool
  /-- negative is unlimited -/
  maxConcurrency : ℤ
  lastPublishedBy : Option String
  metricsUrl : Option String
  backends : Option J
  deriving DecidableEq

/-- `ConcurrencyLimiter`. -/
structure ConcurrencyLimiter where
  inflight : ℤ
  ceiling : ℤ
  deriving DecidableEq, Repr

/-- `ConcurrencyLimiter::new`. -/
def ConcurrencyLimiter.new (ceiling : ℤ) : ConcurrencyLimiter := ⟨0, ceiling⟩

/-- The limiters are filed by slug and replica. -/
abbrev LimiterKey : Type := String × ReplicaId

instance : Ord LimiterKey := lexOrd

/-- `ExternalEndpointMgr`. -/
structure ExternalEndpointMgr (J : Type) where
  map : BTreeMap String (ExternalEndpoint J) := ∅
  resolvedBackends : BTreeMap String (List DiscoveredReplica) := ∅
  limiters : BTreeMap LimiterKey ℕ := ∅
  heap : ℕ → ConcurrencyLimiter := fun _ => .new 0
  /-- the first address that is not in use -/
  fresh : ℕ := 0

variable {J : Type} (fromJson : J → Option BackendConfig)

namespace ExternalEndpoint

variable (ep : ExternalEndpoint J)

/-- The explicit backends of a row. -/
def cfg : Option BackendConfig := ep.backends.bind fromJson

/-- Is there something to scrape? -/
def hasMetrics : Bool :=
  ep.metricsUrl.isSome || match ep.cfg fromJson with
    | some (.explicit replicas) => replicas.any fun r => r.metricsUrl.isSome
    | none => false

end ExternalEndpoint

/-- The replicas of a list, `seen` before it. -/
def explicitReplicas : List ReplicaId → List ReplicaConfig → Except String (List DiscoveredReplica)
  | _, [] => .ok []
  | seen, r :: replicas =>
    let id := r.id.getD r.baseUrl
    if id ∈ seen then .error ("duplicate replica id: " ++ id)
    else
      (explicitReplicas (id :: seen) replicas).map fun out =>
        { id, baseUrl := r.baseUrl, metricsUrl := r.metricsUrl } :: out

/-- `resolve_replicas` -/
def resolveReplicas (ep : ExternalEndpoint J) : Except String (List DiscoveredReplica) :=
  match ep.cfg fromJson with
  | some (.explicit replicas) => explicitReplicas [] replicas
  | none => .ok [{ id := "default", baseUrl := ep.baseUrl, metricsUrl := ep.metricsUrl }]

namespace ExternalEndpointMgr

variable (m : ExternalEndpointMgr J)

/-! ## Limiters -/

/-- Store a ceiling. -/
def storeCeiling (a : ℕ) (c : ℤ) : ExternalEndpointMgr J :=
  { m with heap := Function.update m.heap a { m.heap a with ceiling := c } }

/-- Make a limiter. -/
def alloc (k : LimiterKey) (c : ℤ) : ExternalEndpointMgr J :=
  { m with
    limiters := m.limiters.insert k m.fresh
    heap := Function.update m.heap m.fresh (.new c)
    fresh := m.fresh + 1 }

/-- Keep some of the limiters: `retain` -/
def retain (p : LimiterKey → ConcurrencyLimiter → Bool) : ExternalEndpointMgr J :=
  { m with limiters := m.limiters.filter fun k a => p k (m.heap a) }

/-- The limiter of a replica gets a ceiling, and is made if there is none. -/
def seat (slug : String) (c : ℤ) (r : DiscoveredReplica) : ExternalEndpointMgr J :=
  match m.limiters[(slug, r.id)]? with
  | some a => m.storeCeiling a c
  | none => m.alloc (slug, r.id) c

/-- All limiters of a slug get a ceiling. -/
def storeAll (slug : String) (c : ℤ) : ExternalEndpointMgr J :=
  m.limiters.toList.foldl (fun m e => if e.1.1 = slug then m.storeCeiling e.2 c else m) m

/-- `get_ceiling` -/
def getCeiling (k : LimiterKey) : Option ℤ := m.limiters[k]?.map fun a => (m.heap a).ceiling

/-- `get_inflight` -/
def getInflight (k : LimiterKey) : Option ℤ := m.limiters[k]?.map fun a => (m.heap a).inflight

/-- Is a replica under the ceiling controller? -/
def isDynamic (slug : String) (replicaId : ReplicaId) : Bool :=
  match m.map[slug]? with
  | none => false
  | some ep =>
    if (ep.cfg fromJson).isSome then
      match (m.resolvedBackends[slug]?.getD []).find? fun r => r.id == replicaId with
      | none => false
      | some replica => replica.metricsUrl.isSome
    else ep.metricsUrl.isSome

/-- `set_ceiling` -/
def setCeiling (k : LimiterKey) (c : ℤ) : ExternalEndpointMgr J :=
  if m.isDynamic fromJson k.1 k.2 then
    match m.limiters[k]? with
    | some a => m.storeCeiling a (max c 1)
    | none => m
  else m

/-- `sweep_limiters` -/
def sweepLimiters : ExternalEndpointMgr J :=
  m.retain fun k l =>
    l.inflight != 0 || match m.map[k.1]? with
      | none => false
      | some ep => decide (0 ≤ ep.maxConcurrency)

/-- The cap of a slug; a slug without a row has none. -/
def maxOf (slug : String) : ℤ := (m.map[slug]?.map ExternalEndpoint.maxConcurrency).getD (-1)

/-- The limiter of a replica is made on demand. -/
def withLimiter (k : LimiterKey) (c : ℤ) : ExternalEndpointMgr J :=
  match m.limiters[k]? with
  | some _ => m
  | none => m.alloc k c

/-- One more request is in flight. -/
def countIn (a : ℕ) : ExternalEndpointMgr J :=
  { m with heap := Function.update m.heap a { m.heap a with inflight := (m.heap a).inflight + 1 } }

/-- The end of `try_acquire_slot`. -/
def grantSlot (k : LimiterKey) : ExternalEndpointMgr J × Option (Option ℕ) :=
  match m.limiters[k]? with
  | none => (m, none)
  | some a =>
    if (m.heap a).ceiling ≤ (m.heap a).inflight then (m, none) else (m.countIn a, some (some a))

/-- `try_acquire` and `try_acquire_slot`: the manager, and the permit. A permit of a
capped row has the address of its limiter. -/
def tryAcquire (k : LimiterKey) : ExternalEndpointMgr J × Option (Option ℕ) :=
  if m.maxOf k.1 < 0 then (m, some none) else (m.withLimiter k (m.maxOf k.1)).grantSlot k

/-- `ConcurrencyPermit::drop` -/
def dropPermit (a : ℕ) : ExternalEndpointMgr J :=
  { m with heap := Function.update m.heap a { m.heap a with inflight := (m.heap a).inflight - 1 } }

/-! ## The mirror -/

/-- `resolved_replicas` -/
def resolvedReplicas (slug : String) : List DiscoveredReplica := m.resolvedBackends[slug]?.getD []

/-- The end of `upsert_mirror`: there is always something to serve with. -/
def finishUpsert (ep : ExternalEndpoint J) : ExternalEndpointMgr J :=
  let resolvedBackends :=
    match m.resolvedBackends[ep.slug]? with
    | some _ => m.resolvedBackends
    | none =>
      match resolveReplicas fromJson ep with
      | .ok resolved => m.resolvedBackends.insert ep.slug resolved
      | .error _ => m.resolvedBackends
  { m with resolvedBackends, map := m.map.insert ep.slug ep }

variable [DecidableEq J]

def maxChanged (ep : ExternalEndpoint J) : Bool :=
  m.map[ep.slug]?.map ExternalEndpoint.maxConcurrency != some ep.maxConcurrency

def metricsChanged (ep : ExternalEndpoint J) : Bool :=
  m.map[ep.slug]?.map ExternalEndpoint.metricsUrl != some ep.metricsUrl

def backendsChanged (ep : ExternalEndpoint J) : Bool :=
  m.map[ep.slug]?.map ExternalEndpoint.backends != some ep.backends

/-- The limiters of a row that gets new replicas. What is left over is dropped once it
has drained. -/
def reseat (slug : String) (c : ℤ) (resolved : List DiscoveredReplica) : ExternalEndpointMgr J :=
  resolved.foldl (fun m r => m.seat slug c r) (m.retain fun k l =>
    k.1 != slug || l.inflight != 0 || (resolved.map DiscoveredReplica.id).contains k.2)

/-- `upsert_mirror` -/
def upsertMirror (ep : ExternalEndpoint J) : ExternalEndpointMgr J :=
  if (ep.cfg fromJson).isSome && m.backendsChanged ep then
    match resolveReplicas fromJson ep with
    | .error _ => m
    | .ok resolved =>
      let m := if 0 ≤ ep.maxConcurrency then m.reseat ep.slug ep.maxConcurrency resolved else m
      finishUpsert fromJson { m with resolvedBackends := m.resolvedBackends.insert ep.slug resolved } ep
  else if ep.hasMetrics fromJson && decide (0 ≤ ep.maxConcurrency) then
    if m.maxChanged ep || m.metricsChanged ep then
      let resolved := m.resolvedBackends[ep.slug]?.getD ((resolveReplicas fromJson ep).toOption.getD [])
      let m := match m.resolvedBackends[ep.slug]? with
        | some _ => m
        | none => { m with resolvedBackends := m.resolvedBackends.insert ep.slug resolved }
      finishUpsert fromJson (resolved.foldl (fun m r => m.seat ep.slug ep.maxConcurrency r) m) ep
    else finishUpsert fromJson m ep
  else if (m.maxChanged ep || m.metricsChanged ep || m.backendsChanged ep) && decide (0 ≤ ep.maxConcurrency) then
    finishUpsert fromJson (m.storeAll ep.slug ep.maxConcurrency) ep
  else finishUpsert fromJson m ep

/-- The mirror's part of `Delete`. The limiters stay. -/
def delete (slug : String) : ExternalEndpointMgr J :=
  { m with map := m.map.erase slug, resolvedBackends := m.resolvedBackends.erase slug }

/-! ## What stays as it is -/

omit [DecidableEq J] in
@[simp] theorem storeCeiling_inflight (a b : ℕ) (c : ℤ) :
    ((m.storeCeiling a c).heap b).inflight = (m.heap b).inflight := by
  simp only [storeCeiling, Function.update_apply]
  by_cases hab : b = a
  · rw [if_pos hab, hab]
  · rw [if_neg hab]

omit [DecidableEq J] in
@[simp] theorem storeCeiling_ceiling (a b : ℕ) (c : ℤ) :
    ((m.storeCeiling a c).heap b).ceiling = if b = a then c else (m.heap b).ceiling := by
  simp only [storeCeiling, Function.update_apply]
  by_cases hab : b = a
  · rw [if_pos hab, if_pos hab]
  · rw [if_neg hab, if_neg hab]

omit [DecidableEq J] in
/-- With a limiter there is one. -/
theorem exists_limiter (k : LimiterKey) (c : ℤ) : ∃ a, (m.withLimiter k c).limiters[k]? = some a := by
  unfold withLimiter
  rcases hk : m.limiters[k]? with _ | a
  · exact ⟨m.fresh, BTreeMap.get_insert_self ..⟩
  · exact ⟨a, hk⟩

omit [DecidableEq J] in
/-- **What comes of a request.** -/
theorem tryAcquire_cases (k : LimiterKey) :
    (m.maxOf k.1 < 0 ∧ m.tryAcquire k = (m, some none)) ∨
    (0 ≤ m.maxOf k.1 ∧ ∃ a, (m.withLimiter k (m.maxOf k.1)).limiters[k]? = some a ∧
      ((m.tryAcquire k = (m.withLimiter k (m.maxOf k.1), none)) ∨
        (((m.withLimiter k (m.maxOf k.1)).heap a).inflight < ((m.withLimiter k (m.maxOf k.1)).heap a).ceiling ∧
          m.tryAcquire k = ((m.withLimiter k (m.maxOf k.1)).countIn a, some (some a))))) := by
  unfold tryAcquire
  by_cases hmax : m.maxOf k.1 < 0
  · exact .inl ⟨hmax, if_pos hmax⟩
  · obtain ⟨a, ha⟩ := m.exists_limiter k (m.maxOf k.1)
    refine .inr ⟨by omega, a, ha, ?_⟩
    rw [if_neg hmax, grantSlot, ha]
    dsimp only
    split
    next => exact .inl rfl
    next hlt => exact .inr ⟨by omega, rfl⟩

omit [DecidableEq J] in
theorem alloc_heap (k : LimiterKey) (c : ℤ) (b : ℕ) :
    (m.alloc k c).heap b = if b = m.fresh then .new c else m.heap b := Function.update_apply ..

omit [DecidableEq J] in
@[simp] theorem seat_map (slug : String) (c : ℤ) (r : DiscoveredReplica) : (m.seat slug c r).map = m.map := by
  unfold seat
  split <;> rfl

omit [DecidableEq J] in
@[simp] theorem seat_resolvedBackends (slug : String) (c : ℤ) (r : DiscoveredReplica) :
    (m.seat slug c r).resolvedBackends = m.resolvedBackends := by
  unfold seat
  split <;> rfl

omit [DecidableEq J] in
/-- A loop whose body leaves a part alone leaves it alone. -/
theorem foldl_frame {A B : Type} {f : ExternalEndpointMgr J → A → ExternalEndpointMgr J}
    {g : ExternalEndpointMgr J → B} (h : ∀ m a, g (f m a) = g m) (l : List A) : g (l.foldl f m) = g m := by
  induction l generalizing m with
  | nil => rfl
  | cons a l ih => rw [List.foldl_cons, ih, h]

omit [DecidableEq J] in
@[simp] theorem storeAll_map (slug : String) (c : ℤ) : (m.storeAll slug c).map = m.map :=
  foldl_frame m (fun m e => by split <;> rfl) _

omit [DecidableEq J] in
@[simp] theorem storeAll_resolvedBackends (slug : String) (c : ℤ) :
    (m.storeAll slug c).resolvedBackends = m.resolvedBackends :=
  foldl_frame m (fun m e => by split <;> rfl) _

omit [DecidableEq J] in
@[simp] theorem finishUpsert_map (ep : ExternalEndpoint J) :
    (finishUpsert fromJson m ep).map = m.map.insert ep.slug ep := rfl

theorem insert_eq_self {V : Type} {t : BTreeMap String V} {k : String} {v : V} (h : t[k]? = some v) :
    t.insert k v = t := by
  refine Std.ExtTreeMap.ext_getElem? fun a => ?_
  rw [BTreeMap.get_insert]
  by_cases ha : a = k
  · rw [if_pos ha, ha, h]
  · rw [if_neg ha]

omit [DecidableEq J] in
/-- Replicas that are there stay there. -/
theorem finishUpsert_resolvedBackends {ep : ExternalEndpoint J} {rs : List DiscoveredReplica}
    (h : resolveReplicas fromJson ep = .ok rs) :
    (finishUpsert fromJson m ep).resolvedBackends =
      m.resolvedBackends.insert ep.slug (m.resolvedBackends[ep.slug]?.getD rs) := by
  unfold finishUpsert
  rcases hm : m.resolvedBackends[ep.slug]? with _ | old
  · simp only [h]
    rfl
  · exact (insert_eq_self hm).symm

end ExternalEndpointMgr

/-- The limiters of one row at the start. -/
def seatRow (m : ExternalEndpointMgr J) (row : ExternalEndpoint J) : ExternalEndpointMgr J :=
  match resolveReplicas fromJson row with
  | .error _ => m
  | .ok replicas =>
    let m := { m with map := m.map.insert row.slug row }
    let m := if 0 ≤ row.maxConcurrency then
        replicas.foldl (fun m r => m.alloc (row.slug, r.id) row.maxConcurrency) m
      else m
    { m with resolvedBackends := m.resolvedBackends.insert row.slug replicas }

/-- `ExternalEndpointMgr::New`: the rows of the table, one after the other. -/
def ExternalEndpointMgr.new (rows : List (ExternalEndpoint J)) : ExternalEndpointMgr J :=
  rows.foldl (seatRow fromJson) {}

end Inferx.Gateway.External
