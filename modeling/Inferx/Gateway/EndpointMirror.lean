import Inferx.Lib.Runs
import Inferx.Gateway.External

/-!
# The mirror of the external endpoints

The gateway serves from its mirror alone, which is written through by each of the
calls that change a row. `New` reads the table at the start; the mirror is exact if
it is what `New` would read now. The rows always are. The replicas are resolved when
the explicit backends of a row change and when there are none yet, and are kept
otherwise, although they depend on the base URL and the metrics URL too.
-/

namespace Inferx.Gateway.External

variable {J : Type} [DecidableEq J] (fromJson : J → Option BackendConfig)

/-- The table `ExternalEndpoint` by its key, and the gateway. -/
structure MirrorState (J : Type) where
  rows : BTreeMap String (ExternalEndpoint J)
  mgr : ExternalEndpointMgr J

/-- The calls that change a row. -/
inductive MirrorCall (J : Type) where
  | create (slug baseUrl upstreamModel providerApiKey : String) (maxConcurrency : ℤ)
      (metricsUrl : Option String) (backends : Option J)
  | update (slug baseUrl upstreamModel : String) (providerApiKey : Option String) (maxConcurrency : ℤ)
      (metricsUrl : Option String) (backends : Option J)
  | setPublished (slug : String) (published : Bool) (lastPublishedBy : String)
  | delete (slug : String)

namespace MirrorState

variable (s : MirrorState J)

/-- The row that a call writes: `InsertExternalEndpoint`, `UpdateExternalEndpoint` and
`SetExternalEndpointPublished`. -/
def written : MirrorCall J → Option (ExternalEndpoint J)
  | .create slug baseUrl upstreamModel providerApiKey maxConcurrency metricsUrl backends =>
    match s.rows[slug]? with
    | some _ => none
    | none => some { slug, baseUrl, upstreamModel, providerApiKey, published := false, maxConcurrency,
                     lastPublishedBy := none, metricsUrl, backends }
  | .update slug baseUrl upstreamModel providerApiKey maxConcurrency metricsUrl backends =>
    s.rows[slug]?.map fun row =>
      { row with
        baseUrl, upstreamModel, maxConcurrency, metricsUrl, backends
        providerApiKey := providerApiKey.getD row.providerApiKey }
  | .setPublished slug published lastPublishedBy =>
    s.rows[slug]?.map fun row => { row with published, lastPublishedBy := some lastPublishedBy }
  | .delete _ => none

/-- One successful call. -/
def next (c : MirrorCall J) : Option (MirrorState J) :=
  match c with
  | .delete slug =>
    match s.rows[slug]? with
    | none => none
    | some _ => some ⟨s.rows.erase slug, s.mgr.delete slug⟩
  | _ => (s.written c).map fun ep => ⟨s.rows.insert ep.slug ep, s.mgr.upsertMirror fromJson ep⟩

/-- What `New` reads now. -/
def hydrate : ExternalEndpointMgr J := .new fromJson (s.rows.toList.map Prod.snd)

/-- **The mirror is exact.** -/
structure Exact : Prop where
  map : s.mgr.map = (s.hydrate fromJson).map
  replicas : ∀ slug, s.mgr.resolvedReplicas slug = (s.hydrate fromJson).resolvedReplicas slug

/-- The rows of the table are filed under their slugs and can all be resolved. -/
def Sound : Prop :=
  ∀ (slug : String) ep, s.rows[slug]? = some ep → ep.slug = slug ∧ ∃ rs, resolveReplicas fromJson ep = .ok rs

/-- A gateway that has just read a sound table. -/
def Started : Prop := s.Sound fromJson ∧ s.mgr = s.hydrate fromJson

/-- The replicas of the row that a call writes can be resolved. -/
def Resolvable (c : MirrorCall J) : Prop :=
  ∀ ep, s.written c = some ep → ∃ rs, resolveReplicas fromJson ep = .ok rs

/-- The call keeps the replicas of its row, or gives it explicit backends that are new. -/
def KeepsReplicas (c : MirrorCall J) : Prop :=
  ∀ ep row, s.written c = some ep → s.rows[ep.slug]? = some row →
    ((ep.cfg fromJson).isSome = true ∧ row.backends ≠ ep.backends) ∨
      resolveReplicas fromJson ep = resolveReplicas fromJson row

end MirrorState

/-! ## What `New` reads -/

section Hydrate

variable {fromJson} {m : ExternalEndpointMgr J}

omit [DecidableEq J] in
theorem seatRow_ok {row : ExternalEndpoint J} {rs : List DiscoveredReplica}
    (h : resolveReplicas fromJson row = .ok rs) :
    (seatRow fromJson m row).map = m.map.insert row.slug row ∧
      (seatRow fromJson m row).resolvedBackends = m.resolvedBackends.insert row.slug rs := by
  unfold seatRow
  rw [h]
  dsimp only
  split
  next =>
    have hres := ExternalEndpointMgr.foldl_frame { m with map := m.map.insert row.slug row }
      (f := fun m (r : DiscoveredReplica) => m.alloc (row.slug, r.id) row.maxConcurrency)
      (g := ExternalEndpointMgr.resolvedBackends) (fun m r => rfl) rs
    refine ⟨?_, congrArg (fun t => t.insert row.slug rs) hres⟩
    exact ExternalEndpointMgr.foldl_frame { m with map := m.map.insert row.slug row }
      (f := fun m (r : DiscoveredReplica) => m.alloc (row.slug, r.id) row.maxConcurrency)
      (g := ExternalEndpointMgr.map) (fun m r => rfl) rs
  next => exact ⟨rfl, rfl⟩

omit [DecidableEq J] in
/-- The rows of a list with different slugs, one after the other. -/
theorem foldl_seatRow {l : List (String × ExternalEndpoint J)} (hnodup : (l.map Prod.fst).Nodup)
    (hl : ∀ e ∈ l, e.2.slug = e.1 ∧ ∃ rs, resolveReplicas fromJson e.2 = .ok rs) (m : ExternalEndpointMgr J)
    (k : String) :
    (∀ ep, (k, ep) ∈ l →
      ((l.map Prod.snd).foldl (seatRow fromJson) m).map[k]? = some ep ∧
      ((l.map Prod.snd).foldl (seatRow fromJson) m).resolvedBackends[k]? =
        (resolveReplicas fromJson ep).toOption) ∧
    (k ∉ l.map Prod.fst →
      ((l.map Prod.snd).foldl (seatRow fromJson) m).map[k]? = m.map[k]? ∧
      ((l.map Prod.snd).foldl (seatRow fromJson) m).resolvedBackends[k]? = m.resolvedBackends[k]?) := by
  induction l generalizing m with
  | nil => exact ⟨fun _ h => absurd h List.not_mem_nil, fun _ => ⟨rfl, rfl⟩⟩
  | cons e l ih =>
    obtain ⟨hnot, hnodup⟩ := List.nodup_cons.mp hnodup
    obtain ⟨hslug, rs, hrs⟩ := hl e List.mem_cons_self
    obtain ⟨hmap, hres⟩ := seatRow_ok (m := m) hrs
    obtain ⟨hin, hout⟩ := ih hnodup (fun e' he' => hl e' (List.mem_cons_of_mem _ he')) (seatRow fromJson m e.2)
    rw [List.map_cons, List.map_cons, List.foldl_cons]
    constructor
    · intro ep hmem
      rcases List.mem_cons.mp hmem with rfl | hmem
      · obtain ⟨hm, hr⟩ := hout hnot
        rw [hm, hr, hmap, hres, hslug, BTreeMap.get_insert_self, BTreeMap.get_insert_self, hrs]
        exact ⟨rfl, rfl⟩
      · exact hin ep hmem
    · intro hk
      rw [List.mem_cons, not_or] at hk
      obtain ⟨hm, hr⟩ := hout hk.2
      rw [hm, hr, hmap, hres, hslug, BTreeMap.get_insert_of_ne hk.1, BTreeMap.get_insert_of_ne hk.1]
      exact ⟨rfl, rfl⟩

end Hydrate

namespace MirrorState

section Exactness

variable {fromJson} {s s' : MirrorState J}

omit [DecidableEq J] in
/-- **What `New` reads**: the rows, and the replicas that they resolve to. -/
theorem hydrate_spec (h : s.Sound fromJson) : (s.hydrate fromJson).map = s.rows ∧
    ∀ slug : String, (s.hydrate fromJson).resolvedBackends[slug]? =
      s.rows[slug]?.bind fun ep => (resolveReplicas fromJson ep).toOption := by
  have hnodup : (s.rows.toList.map Prod.fst).Nodup := by
    rw [Std.ExtTreeMap.map_fst_toList_eq_keys]
    exact Std.ExtTreeMap.nodup_keys
  have hl : ∀ e ∈ s.rows.toList, e.2.slug = e.1 ∧ ∃ rs, resolveReplicas fromJson e.2 = .ok rs :=
    fun e he => h e.1 e.2 (BTreeMap.mem_toList.mp he)
  have hlook := fun k : String => foldl_seatRow hnodup hl {} k
  have hboth : ∀ k : String, (s.hydrate fromJson).map[k]? = s.rows[k]? ∧ (s.hydrate fromJson).resolvedBackends[k]? =
      s.rows[k]?.bind fun ep => (resolveReplicas fromJson ep).toOption := by
    intro k
    rcases hk : s.rows[k]? with _ | ep
    · have hnot : k ∉ s.rows.toList.map Prod.fst := by
        intro hmem
        obtain ⟨e, he, rfl⟩ := List.mem_map.mp hmem
        rw [BTreeMap.mem_toList.mp he] at hk
        cases hk
      exact (hlook k).2 hnot
    · exact (hlook k).1 ep (BTreeMap.mem_toList.mpr hk)
  exact ⟨Std.ExtTreeMap.ext_getElem? fun k => (hboth k).1, fun k => (hboth k).2⟩

/-- What holds of an exact mirror: also which replicas are there at all. -/
structure Inv (fromJson : J → Option BackendConfig) (s : MirrorState J) : Prop where
  sound : s.Sound fromJson
  map : s.mgr.map = s.rows
  resolved : ∀ slug : String, s.mgr.resolvedBackends[slug]? =
    s.rows[slug]?.bind fun ep => (resolveReplicas fromJson ep).toOption

omit [DecidableEq J] in
theorem Inv.exact (h : Inv fromJson s) : s.Exact fromJson := by
  obtain ⟨hmap, hres⟩ := hydrate_spec h.sound
  refine ⟨h.map.trans hmap.symm, fun slug => ?_⟩
  rw [ExternalEndpointMgr.resolvedReplicas, ExternalEndpointMgr.resolvedReplicas, h.resolved, hres]

omit [DecidableEq J] in
theorem Inv.started (h : s.Started fromJson) : Inv fromJson s := by
  obtain ⟨hmap, hres⟩ := hydrate_spec h.1
  refine ⟨h.1, ?_, ?_⟩
  · rw [h.2, hmap]
  · rw [h.2]
    exact hres

end Exactness

end MirrorState

section Upsert

variable {fromJson} {m m' : ExternalEndpointMgr J} {ep : ExternalEndpoint J} {rs : List DiscoveredReplica}

theorem insert_insert {V : Type} (t : BTreeMap String V) (k : String) (v w : V) :
    (t.insert k v).insert k w = t.insert k w := by
  refine Std.ExtTreeMap.ext_getElem? fun a => ?_
  rw [BTreeMap.get_insert, BTreeMap.get_insert, BTreeMap.get_insert]
  by_cases ha : a = k
  · rw [if_pos ha, if_pos ha]
  · rw [if_neg ha, if_neg ha, if_neg ha]

omit [DecidableEq J] in
/-- The end of an upsert that has not touched the mirror before. -/
theorem finishUpsert_mirror (hmap : m'.map = m.map) (hres : m'.resolvedBackends = m.resolvedBackends)
    (h : resolveReplicas fromJson ep = .ok rs) :
    (ExternalEndpointMgr.finishUpsert fromJson m' ep).map = m.map.insert ep.slug ep ∧
      (ExternalEndpointMgr.finishUpsert fromJson m' ep).resolvedBackends =
        m.resolvedBackends.insert ep.slug (m.resolvedBackends[ep.slug]?.getD rs) := by
  rw [ExternalEndpointMgr.finishUpsert_map, ExternalEndpointMgr.finishUpsert_resolvedBackends _ _ h, hmap, hres]
  exact ⟨rfl, rfl⟩

omit [DecidableEq J] in
/-- The end of an upsert that has filed replicas already. -/
theorem finishUpsert_filed {r : List DiscoveredReplica} (hmap : m'.map = m.map)
    (hres : m'.resolvedBackends = m.resolvedBackends.insert ep.slug r)
    (h : resolveReplicas fromJson ep = .ok rs) :
    (ExternalEndpointMgr.finishUpsert fromJson m' ep).map = m.map.insert ep.slug ep ∧
      (ExternalEndpointMgr.finishUpsert fromJson m' ep).resolvedBackends =
        m.resolvedBackends.insert ep.slug r := by
  rw [ExternalEndpointMgr.finishUpsert_map, ExternalEndpointMgr.finishUpsert_resolvedBackends _ _ h, hmap, hres,
    BTreeMap.get_insert_self, Option.getD_some, insert_insert]
  exact ⟨rfl, rfl⟩

omit [DecidableEq J] in
theorem seats_mirror (m : ExternalEndpointMgr J) (slug : String) (c : ℤ) (l : List DiscoveredReplica) :
    (l.foldl (fun m r => m.seat slug c r) m).map = m.map ∧
      (l.foldl (fun m r => m.seat slug c r) m).resolvedBackends = m.resolvedBackends :=
  ⟨ExternalEndpointMgr.foldl_frame m (fun m r => m.seat_map slug c r) l,
    ExternalEndpointMgr.foldl_frame m (fun m r => m.seat_resolvedBackends slug c r) l⟩

/-- **An upsert with new backends** resolves the replicas. -/
theorem upsertMirror_new (h : resolveReplicas fromJson ep = .ok rs) 
    (hnew : ((ep.cfg fromJson).isSome && m.backendsChanged ep) = true) :
    (m.upsertMirror fromJson ep).map = m.map.insert ep.slug ep ∧
      (m.upsertMirror fromJson ep).resolvedBackends = m.resolvedBackends.insert ep.slug rs := by
  unfold ExternalEndpointMgr.upsertMirror
  rw [if_pos hnew, h]
  dsimp only
  split
  next =>
    obtain ⟨hmap, hres⟩ := seats_mirror (m.retain fun k l => k.1 != ep.slug || l.inflight != 0 ||
      (rs.map DiscoveredReplica.id).contains k.2) ep.slug ep.maxConcurrency rs
    exact finishUpsert_filed hmap (congrArg (fun t => t.insert ep.slug rs) hres) h
  next => exact finishUpsert_filed rfl rfl h

/-- **Another upsert** keeps the replicas that are there. -/
theorem upsertMirror_same (h : resolveReplicas fromJson ep = .ok rs) 
    (hnew : ¬ ((ep.cfg fromJson).isSome && m.backendsChanged ep) = true) :
    (m.upsertMirror fromJson ep).map = m.map.insert ep.slug ep ∧
      (m.upsertMirror fromJson ep).resolvedBackends =
        m.resolvedBackends.insert ep.slug (m.resolvedBackends[ep.slug]?.getD rs) := by
  unfold ExternalEndpointMgr.upsertMirror
  rw [if_neg hnew]
  split
  next =>
    split
    next =>
      rcases hm : m.resolvedBackends[ep.slug]? with _ | old
      · dsimp only
        rw [h]
        obtain ⟨hmap, hres⟩ := seats_mirror { m with resolvedBackends := m.resolvedBackends.insert ep.slug rs }
          ep.slug ep.maxConcurrency rs
        exact finishUpsert_filed hmap hres h
      · obtain ⟨hmap, hres⟩ := seats_mirror m ep.slug ep.maxConcurrency old
        have hfin := finishUpsert_mirror hmap hres h
        rw [hm] at hfin
        exact hfin
    next => exact finishUpsert_mirror rfl rfl h
  next =>
    split
    next => exact finishUpsert_mirror (m.storeAll_map _ _) (m.storeAll_resolvedBackends _ _) h
    next => exact finishUpsert_mirror rfl rfl h

end Upsert

namespace MirrorState

variable {fromJson} {s s' : MirrorState J} {ep : ExternalEndpoint J} {rs r : List DiscoveredReplica}
  {mgr' : ExternalEndpointMgr J} {c : MirrorCall J}

section Write

variable (h : Inv fromJson s) (hrs : resolveReplicas fromJson ep = .ok rs)
  (hres : mgr'.resolvedBackends = s.mgr.resolvedBackends.insert ep.slug r)

include h hrs

omit [DecidableEq J] in
/-- The table after a row has been written is sound. -/
theorem Inv.sound_insert : (⟨s.rows.insert ep.slug ep, mgr'⟩ : MirrorState J).Sound fromJson := by
  intro slug row hrow
  rw [BTreeMap.get_insert] at hrow
  split at hrow
  next hslug =>
    obtain rfl := Option.some.inj hrow
    exact ⟨hslug.symm, rs, hrs⟩
  next => exact h.sound slug row hrow

include hres

omit [DecidableEq J] in
/-- A row is written, with the replicas that it resolves to. -/
theorem Inv.insert (hmap : mgr'.map = s.mgr.map.insert ep.slug ep) (hr : r = rs) : Inv fromJson ⟨s.rows.insert ep.slug ep, mgr'⟩ := by
  refine ⟨h.sound_insert hrs, ?_, fun slug => ?_⟩
  · rw [hmap, h.map]
  · rw [hres, BTreeMap.get_insert, BTreeMap.get_insert]
    split
    next => rw [Option.bind_some, hrs, hr]; rfl
    next => exact h.resolved slug

omit [DecidableEq J] in
/-- The mirror is exact only with the replicas that the row resolves to. -/
theorem Inv.replicas_eq (hexact : Exact fromJson ⟨s.rows.insert ep.slug ep, mgr'⟩) : r = rs := by
  have hslug := hexact.replicas ep.slug
  have hsound : (⟨s.rows.insert ep.slug ep, mgr'⟩ : MirrorState J).Sound fromJson := h.sound_insert hrs
  have hnew := (hydrate_spec hsound).2 ep.slug
  rw [ExternalEndpointMgr.resolvedReplicas, ExternalEndpointMgr.resolvedReplicas, hnew, hres,
    BTreeMap.get_insert_self, BTreeMap.get_insert_self, Option.bind_some, hrs] at hslug
  exact hslug

end Write

/-- **A call that writes a row** leaves the mirror exact when it keeps the replicas of
the row or gives it new backends. -/
theorem Inv.write (h : Inv fromJson s) (hep : s.written c = some ep) (hok : s.Resolvable fromJson c) :
    (s.KeepsReplicas fromJson c → Inv fromJson ⟨s.rows.insert ep.slug ep, s.mgr.upsertMirror fromJson ep⟩) ∧
      (Exact fromJson ⟨s.rows.insert ep.slug ep, s.mgr.upsertMirror fromJson ep⟩ → s.KeepsReplicas fromJson c) := by
  obtain ⟨rs, hrs⟩ := hok ep hep
  by_cases hnew : ((ep.cfg fromJson).isSome && s.mgr.backendsChanged ep) = true
  · -- the replicas are resolved again
    obtain ⟨hmap, hres⟩ := upsertMirror_new hrs hnew
    refine ⟨fun _ => h.insert hrs hres hmap rfl, fun _ ep' row hep' hrow => ?_⟩
    obtain rfl := Option.some.inj (hep.symm.trans hep')
    rw [Bool.and_eq_true] at hnew
    refine .inl ⟨hnew.1, fun heq => ?_⟩
    have hchanged := hnew.2
    rw [ExternalEndpointMgr.backendsChanged, h.map, hrow, Option.map_some, heq, bne_self_eq_false] at hchanged
    cases hchanged
  · -- the replicas that are there are kept, so the new row has to have the same
    obtain ⟨hmap, hres⟩ := upsertMirror_same hrs hnew
    rw [h.resolved] at hres
    rcases hrow : s.rows[ep.slug]? with _ | row
    · rw [hrow] at hres
      refine ⟨fun _ => h.insert hrs hres hmap rfl, fun _ ep' row hep' hrow' => ?_⟩
      obtain rfl := Option.some.inj (hep.symm.trans hep')
      rw [hrow] at hrow'
      cases hrow'
    · obtain ⟨-, rs₀, hrs₀⟩ := h.sound ep.slug row hrow
      rw [hrow, Option.bind_some, hrs₀] at hres
      constructor
      · intro hkeeps
        refine h.insert hrs hres hmap ?_
        rcases hkeeps ep row hep hrow with ⟨hcfg, hne⟩ | heq
        · refine absurd ?_ hnew
          rw [Bool.and_eq_true]
          refine ⟨hcfg, ?_⟩
          rw [ExternalEndpointMgr.backendsChanged, h.map, hrow, Option.map_some, bne_iff_ne]
          exact fun heq => hne (Option.some.inj heq)
        · rw [hrs, hrs₀] at heq
          exact (Except.ok.inj heq).symm
      · intro hexact ep' row' hep' hrow'
        obtain rfl := Option.some.inj (hep.symm.trans hep')
        obtain rfl := Option.some.inj (hrow.symm.trans hrow')
        have heq : rs₀ = rs := h.replicas_eq hrs hres hexact
        rw [hrs, hrs₀, heq]
        exact .inr rfl

omit [DecidableEq J] in
/-- A deletion takes the row out of the table and of the mirror. -/
theorem Inv.delete (h : Inv fromJson s) (slug : String) :
    Inv fromJson ⟨s.rows.erase slug, s.mgr.delete slug⟩ := by
  refine ⟨fun k row hrow => h.sound k row (BTreeMap.get_erase_eq_some.mp hrow).2, ?_, fun k => ?_⟩
  · rw [ExternalEndpointMgr.delete, h.map]
  · rw [ExternalEndpointMgr.delete, BTreeMap.get_erase, BTreeMap.get_erase]
    split
    next => rfl
    next => exact h.resolved k

/-- **One call.** -/
theorem Inv.next (h : Inv fromJson s) (hok : s.Resolvable fromJson c) (hnext : s.next fromJson c = some s') :
    (s.KeepsReplicas fromJson c → Inv fromJson s') ∧ (s'.Exact fromJson → s.KeepsReplicas fromJson c) := by
  have hwrite : (s.written c).map (fun ep => (⟨s.rows.insert ep.slug ep, s.mgr.upsertMirror fromJson ep⟩ :
      MirrorState J)) = some s' → (s.KeepsReplicas fromJson c → Inv fromJson s') ∧
        (s'.Exact fromJson → s.KeepsReplicas fromJson c) := by
    intro hmap
    obtain ⟨ep, hep, rfl⟩ := Option.map_eq_some_iff.mp hmap
    exact h.write hep hok
  cases c with
  | delete slug =>
    simp only [MirrorState.next] at hnext
    split at hnext
    next => cases hnext
    next =>
      obtain rfl := Option.some.inj hnext
      refine ⟨fun _ => h.delete slug, fun _ ep row hep _ => ?_⟩
      cases hep
  | create _ _ _ _ _ _ _ => exact hwrite hnext
  | update _ _ _ _ _ _ _ => exact hwrite hnext
  | setPublished _ _ _ => exact hwrite hnext

/-- **The mirror equals a fresh hydrate** after every run of calls that keep the replicas of
their row or give it new explicit backends, and the next call leaves it so exactly
if it is such a call too. -/
theorem mirror_exact_iff (h : Reach (MirrorState.next fromJson) (Started fromJson)
      (fun s c => s.Resolvable fromJson c ∧ s.KeepsReplicas fromJson c) s) :
    s.Exact fromJson ∧ ∀ c s', s.Resolvable fromJson c → s.next fromJson c = some s' →
      (s'.Exact fromJson ↔ s.KeepsReplicas fromJson c) := by
  have hinv : Inv fromJson s := h.invariant (fun _ => Inv.started) fun _ _ _ hinv hok hnext =>
    (hinv.next hok.1 hnext).1 hok.2
  refine ⟨hinv.exact, fun c s' hok hnext => ?_⟩
  obtain ⟨hkeep, hconv⟩ := hinv.next hok hnext
  exact ⟨hconv, fun hk => (hkeep hk).exact⟩

/-! ## Two runs -/

instance (s : MirrorState J) (c : MirrorCall J) : Decidable (s.Resolvable fromJson c) :=
  decidable_of_iff (∀ ep ∈ s.written c, (resolveReplicas fromJson ep).toOption.isSome = true) (by
    refine forall₂_congr fun ep _ => ?_
    cases resolveReplicas fromJson ep <;> simp [Except.toOption])

instance (s : MirrorState J) (c : MirrorCall J) : Decidable (s.KeepsReplicas fromJson c) :=
  decidable_of_iff (∀ ep ∈ s.written c, ∀ row ∈ s.rows[ep.slug]?,
    ((ep.cfg fromJson).isSome = true ∧ row.backends ≠ ep.backends) ∨
      resolveReplicas fromJson ep = resolveReplicas fromJson row)
    ⟨fun h ep row hep hrow => h ep hep row hrow, fun h ep hep row hrow => h ep row hep hrow⟩

/-- An empty table. -/
def bare : MirrorState BackendConfig := ⟨∅, {}⟩

theorem bare_started : bare.Started some := by
  refine ⟨fun slug ep hrow => ?_, ?_⟩
  · simp [bare] at hrow
  · have hnil : (∅ : BTreeMap String (ExternalEndpoint BackendConfig)).toList = [] :=
      Std.ExtTreeMap.toList_eq_nil_iff.mpr rfl
    rw [hydrate, bare, hnil]
    rfl

/-- An endpoint is made, and its row is edited. -/
def edit (maxConcurrency : ℤ) (baseUrl : String) : List (MirrorCall BackendConfig) :=
  [.create "m" "https://a/v1" "u" "sk" (-1) none none, .update "m" baseUrl "u" none maxConcurrency none none]

/-- The cap of a row is edited. -/
theorem mirror_exact_cap : ∃ s : MirrorState BackendConfig, s.Exact some ∧
    s.mgr.resolvedReplicas "m" = [⟨"default", "https://a/v1", none⟩] := by
  have hrun : ((exec (MirrorState.next some) (fun s c => s.Resolvable some c ∧ s.KeepsReplicas some c) bare
      (edit 4 "https://a/v1")).map fun s => s.mgr.resolvedReplicas "m") =
        some [⟨"default", "https://a/v1", none⟩] := by decide +kernel
  obtain ⟨s, hs, hr⟩ := Option.map_eq_some_iff.mp hrun
  exact ⟨s, (mirror_exact_iff (Reach.of_exec _ _ (.init bare_started) hs)).1, hr⟩

/-- The base URL of a row is edited, and requests still go to the old one. -/
theorem edited_url_not_served : ¬ ∀ s, Reach (MirrorState.next some) (Started some)
    (fun s (c : MirrorCall BackendConfig) => s.Resolvable some c) s → s.Exact some := by
  intro h
  have hrun : ((exec (MirrorState.next some) (fun s c => s.Resolvable some c) bare
      (edit (-1) "https://b/v1")).map fun s => (s.mgr.resolvedReplicas "m", (s.hydrate some).resolvedReplicas "m")) =
        some ([⟨"default", "https://a/v1", none⟩], [⟨"default", "https://b/v1", none⟩]) := by decide +kernel
  obtain ⟨s, hs, hr⟩ := Option.map_eq_some_iff.mp hrun
  have hsame := (h s (Reach.of_exec _ _ (.init bare_started) hs)).replicas "m"
  rw [(Prod.mk.inj hr).1, (Prod.mk.inj hr).2] at hsame
  exact absurd hsame (by decide)

end MirrorState

end Inferx.Gateway.External
