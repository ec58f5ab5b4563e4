import Inferx.Scheduler.Rollback

/-!
# Duplicate snapshots

When the node agent answers that it already has the snapshot, two messages
follow: `cleanupDuplicateSnapshot`, and `startWorkerComplete` with the text of
the answer. Both give the reservation back, and the second one panics unless
the text happens to say that the connection was refused. So the creation is
undone only when there was nothing to give back twice.
-/

namespace Inferx

open Proc SchedulerHandler

variable {s s' t u : SchedulerHandler} {rpc : StartRpc} {f n : String}

/-- The creation of the snapshot is undone. -/
structure DuplicateUndone (s t : SchedulerHandler) (rpc : StartRpc) : Prop where
  /-- the node has what it had, and no reservation for the pod -/
  node : ∀ ns, s.nodes[rpc.nodename]? = some ns → ∃ ns', t.nodes[rpc.nodename]? = some ns' ∧
    ns'.available = ns.available ∧ ns'.pendingPods[rpc.podkey]? = none
  /-- the function has no reservation for the pod -/
  func : ∀ fs, t.funcs[rpc.funcid]? = some fs → fs.pendingPods[rpc.podkey]? = none
  /-- the mark is gone -/
  mark : ¬ SnapshotPending t rpc.funcid rpc.nodename
  /-- the evicted pods are idle again -/
  evicted : ∀ k ∈ rpc.terminated, k ∈ t.idlePods ∧
    (∃ w, t.pods[k]? = some w ∧ t.stateOf w = .idle) ∧
    (∀ (n : String) ns, t.nodes[n]? = some ns → k ∉ ns.stoppingPods) ∧
    ∀ (f : String) fs, t.funcs[f]? = some fs → k ∉ fs.stoppingPods

/-- A snapshot of the function can be made on the node without evictions. -/
structure SnapshotRoom (s : SchedulerHandler) (f n : String) : Prop where
  /-- functions are kept under their ids -/
  keyed : ∀ fs, s.funcs[f]? = some fs → fs.func.id = f
  /-- the node has room for the snapshot as it is -/
  room : ∀ fs ns req state, s.funcs[f]? = some fs → s.nodes[n]? = some ns →
    fs.func.snapshotResource (asU64 ns.node.resources.maxContextCnt) = .ok req →
    ns.available.canAlloc req true = .ok state → state.ok = true

/-- When is a duplicate undone? -/
structure DuplicateOk (s : SchedulerHandler) (f n text : String) : Prop extends SnapshotRoom s f n where
  /-- the text of the answer says that it is safe to restore -/
  safe : isSafeToRestore (.commonError text) = true
  /-- a snapshot of the function asks for nothing -/
  nothing : ∀ fs ns req, s.funcs[f]? = some fs → s.nodes[n]? = some ns →
    fs.func.snapshotResource (asU64 ns.node.resources.maxContextCnt) = .ok req →
    req.memory = 0 ∧ req.cacheMemory = 0 ∧ req.gpu.gpuCount = 0

/-- A snapshot that the node has room for evicts nothing. -/
theorem started_of_room {env : Env} (hs : SnapshotRoom s f n)
    (hx : tryCreateSnapshotOnNode env f n s = .ok () s') (hout : s'.out = s.out ++ [.startWorker rpc]) :
    Started s s' rpc [] env.now ∧ Planned s rpc [] (fun ns r => r = ([], ns.available)) ∧
      rpc.funcid = f ∧ rpc.nodename = n := by
  have hsearch : SearchEnds env s f n fun ns r => r = ([], ns.available) := by
    intro fs ns req hf hn hreq
    unfold Ends snapshotEvictions
    rw [wp_bind]
    refine ends_liftFault fun state hstate => ?_
    rw [if_pos (hs.room fs ns req state hf hn hreq hstate)]
    exact ⟨rfl, ⟨Evictable.nil s n, ns, hn, rfl⟩, rfl⟩
  obtain ⟨ws, h, hplan, hf, hn⟩ := started_of_tryCreate hsearch hs.keyed hx hout
  obtain ⟨_, _, _, _, _, _, _, hP, -⟩ := hplan.alloc
  obtain rfl : ws = [] := congrArg Prod.fst hP
  exact ⟨h, hplan, hf, hn⟩

/-- Taking nothing from a node and giving it back. -/
theorem alloc_nothing {a r rest : NodeResources} {req : Resources} {c : Bool}
    (hreq : req.memory = 0 ∧ req.cacheMemory = 0 ∧ req.gpu.gpuCount = 0)
    (h : a.alloc req c = .ok (.ok r, rest)) : a.sub r = .ok a ∧ a.add r = .ok a := by
  obtain ⟨hmemory, hcache, hgpu⟩ := hreq
  have hgpus : a.gpus.alloc req.gpu c =
      .ok (.ok { totalSlotCnt := a.gpus.totalSlotCnt, slotSize := a.gpus.slotSize }, a.gpus) := by
    unfold GPUResourceMap.alloc GPUResourceMap.canAlloc
    rw [if_pos hgpu]
    show (if req.gpu.gpuCount = 0 then _ else _) = _
    rw [if_pos hgpu]
    rfl
  have hzero : asI64 0 = 0 := by decide
  have hnone : ∀ x : ℤ, addI64 x 0 = .ok x := fun x =>
    addI64_eq_ok.mpr ⟨(Int.add_zero x).symm, by omega, by omega⟩
  have hnone' : ∀ x : ℤ, subI64 x 0 = .ok x := fun x =>
    subI64_eq_ok.mpr ⟨(Int.sub_zero x).symm, by omega, by omega⟩
  unfold NodeResources.alloc at h
  obtain ⟨state, -, h⟩ := Except.bind_eq_ok.mp h
  split at h
  next =>
    obtain ⟨memory, -, h⟩ := Except.bind_eq_ok.mp h
    obtain ⟨cache, -, h⟩ := Except.bind_eq_ok.mp h
    rw [hgpus] at h
    obtain ⟨hr, -⟩ := Prod.mk.inj (Except.ok.inj h)
    obtain rfl := Except.ok.inj hr
    constructor
    · have hsub : a.gpus.sub { totalSlotCnt := a.gpus.totalSlotCnt, slotSize := a.gpus.slotSize } =
          .ok a.gpus := by
        unfold GPUResourceMap.sub
        rw [if_pos (Or.inr rfl)]
        rfl
      unfold NodeResources.sub
      dsimp only
      rw [hmemory, hcache, hzero, hnone', Except.ok_bind, hnone', Except.ok_bind, hsub]
      rfl
    · have hadd : a.gpus.add { totalSlotCnt := a.gpus.totalSlotCnt, slotSize := a.gpus.slotSize } =
          .ok a.gpus := by
        unfold GPUResourceMap.add
        rw [ite_self]
        rfl
      unfold NodeResources.add
      dsimp only
      rw [if_pos rfl, hadd, Except.ok_bind, hmemory, hcache, hzero, hnone, Except.ok_bind, hnone]
      rfl
  next => cases h

/-! ## One of the two messages -/

/-- Dropping a reservation of nothing. -/
theorem freeNodeResource_nothing {r : NodeResources} {ns : NodeStatus} {k : String}
    (hn : s.nodes[n]? = some ns) (hadd : ns.available.add r = .ok ns.available) :
    ∃ nodes ns', freeNodeResource n r (s.dropNodePending n k) = .ok () { s.dropNodePending n k with nodes } ∧
      nodes[n]? = some ns' ∧ ns'.available = ns.available ∧ ns'.pendingPods[k]? = none := by
  have hdrop : (s.dropNodePending n k).nodes[n]? =
      some { ns with pendingPods := ns.pendingPods.erase k } := by
    show (s.nodes.modify n _)[n]? = _
    rw [BTreeMap.get_modify_self, hn]
    rfl
  refine ⟨_, _, freeNodeResource_ok hdrop hadd, BTreeMap.get_insert_self .., rfl, ?_⟩
  show (ns.pendingPods.erase k)[k]? = none
  rw [BTreeMap.get_erase, if_pos rfl]

theorem not_pending_removed (s : SchedulerHandler) (f n : String) :
    ¬ SnapshotPending (s.removePendingSnapshot f n) f n := by
  rintro ⟨nodes, hnodes, hmem⟩
  unfold removePendingSnapshot at hnodes
  rcases hp : s.pendingsnapshots[f]? with _ | m
  · rw [hp] at hnodes
    simp only at hnodes
    rw [hp] at hnodes
    cases hnodes
  · rw [hp] at hnodes
    simp only at hnodes
    split at hnodes
    next =>
      rw [BTreeMap.get_erase, if_pos rfl] at hnodes
      cases hnodes
    next =>
      rw [BTreeMap.get_insert_self] at hnodes
      obtain rfl := Option.some.inj hnodes
      exact absurd hmem (Finset.notMem_erase n m)

theorem dropFuncPending_get {fs : FuncStatus} (k : String) (hf : s.funcs[f]? = some fs) :
    (s.dropFuncPending f k).funcs[f]? = some { fs with pendingPods := fs.pendingPods.erase k } := by
  show (s.funcs.modify f _)[f]? = _
  rw [BTreeMap.get_modify_self, hf]
  rfl

theorem addSnapshotTask_known (env : Env) {fs : FuncStatus} (hf : s.funcs[f]? = some fs) :
    ∃ delayedTasks, addSnapshotTask env n f s = .ok () { s with delayedTasks } := by
  rw [addSnapshotTask_eq fs hf]
  split
  next => exact ⟨s.delayedTasks, rfl⟩
  next => exact ⟨_, rfl⟩

/-- What both messages leave behind. -/
structure Dropped (t : SchedulerHandler) (rpc : StartRpc) (available : NodeResources) : Prop where
  /-- the node has what it had, and no reservation for the pod -/
  node : ∃ ns, t.nodes[rpc.nodename]? = some ns ∧ ns.available = available ∧
    ns.pendingPods[rpc.podkey]? = none
  /-- the function has no reservation for the pod -/
  func : ∃ fs, t.funcs[rpc.funcid]? = some fs ∧ fs.pendingPods[rpc.podkey]? = none
  /-- the mark is gone -/
  mark : ¬ SnapshotPending t rpc.funcid rpc.nodename

section Nothing

variable {ns : NodeStatus} {fs : FuncStatus}

theorem cleanup_drops (env : Env) (hn : s.nodes[rpc.nodename]? = some ns)
    (hf : s.funcs[rpc.funcid]? = some fs) (hterminated : rpc.terminated = [])
    (hadd : ns.available.add rpc.resources = .ok ns.available) :
    ∃ t, s.call (env, .msg (.cleanupDuplicateSnapshot rpc)) = .ok () t ∧
      Dropped t rpc ns.available := by
  generalize hv : removePendingSnapshot { s with out := [] } rpc.funcid rpc.nodename = v
  have heq := removePendingSnapshot_eq { s with out := [] } rpc.funcid rpc.nodename
  have hvn : v.nodes[rpc.nodename]? = some ns := by
    rw [← hv, heq]
    exact hn
  have hvf : v.funcs[rpc.funcid]? = some fs := by
    rw [← hv, heq]
    exact hf
  obtain ⟨nodes, ns', hfree, hn', havailable, hpending⟩ :=
    freeNodeResource_nothing (k := rpc.podkey) hvn hadd
  show ∃ t, processCleanupDuplicateSnapshot rpc { s with out := [] } = .ok () t ∧ _
  unfold processCleanupDuplicateSnapshot
  rw [bind_modify, hv, bind_modify, bind_ok hfree, bind_modify, hterminated]
  refine ⟨_, rfl, ⟨ns', hn', havailable, hpending⟩, ⟨_, dropFuncPending_get rpc.podkey hvf, ?_⟩, ?_⟩
  · show (fs.pendingPods.erase rpc.podkey)[rpc.podkey]? = none
    rw [BTreeMap.get_erase, if_pos rfl]
  · have hmark := not_pending_removed { s with out := [] } rpc.funcid rpc.nodename
    rw [hv] at hmark
    exact hmark

theorem complete_drops {e : Error} (env : Env) (hn : s.nodes[rpc.nodename]? = some ns)
    (hf : s.funcs[rpc.funcid]? = some fs) (hterminated : rpc.terminated = [])
    (htype : rpc.createType = .snapshot) (he : isSafeToRestore e = true)
    (hadd : ns.available.add rpc.resources = .ok ns.available) :
    ∃ t, s.call (env, .msg (.startWorkerComplete rpc (some e))) = .ok () t ∧
      Dropped t rpc ns.available := by
  obtain ⟨nodes, ns', hfree, hn', havailable, hpending⟩ :=
    freeNodeResource_nothing (s := { s with out := [] }) (k := rpc.podkey) hn hadd
  show ∃ t, processStartWorkerComplete env rpc (some e) { s with out := [] } = .ok () t ∧ _
  unfold processStartWorkerComplete
  show ∃ t, (ite _ _ _ : SchedM Unit) _ = _ ∧ _
  rw [if_pos he, bind_modify, bind_ok hfree, bind_modify, bind_modify, bind_modify]
  rw [if_pos htype, if_pos htype, hterminated]
  generalize hv : dropFuncPending _ rpc.funcid rpc.podkey = v
  have hvf : v.funcs[rpc.funcid]? = some { fs with pendingPods := fs.pendingPods.erase rpc.podkey } := by
    rw [← hv]
    exact dropFuncPending_get rpc.podkey hf
  have hvn : v.nodes = nodes := by
    rw [← hv]
    rfl
  have hmark := not_pending_removed v rpc.funcid rpc.nodename
  rw [removePendingSnapshot_eq] at hmark ⊢
  obtain ⟨delayedTasks, htask⟩ := addSnapshotTask_known env (n := rpc.nodename)
    (s := { v with pendingsnapshots := (v.removePendingSnapshot rpc.funcid rpc.nodename).pendingsnapshots })
    hvf
  refine ⟨_, htask, ⟨ns', ?_, havailable, hpending⟩, ⟨_, hvf, ?_⟩, hmark⟩
  · show v.nodes[rpc.nodename]? = some ns'
    rw [hvn, hn']
  · show (fs.pendingPods.erase rpc.podkey)[rpc.podkey]? = none
    rw [BTreeMap.get_erase, if_pos rfl]

end Nothing

/-- **Duplicate snapshots.** The creation of a snapshot that the node agent
answers with a duplicate is undone when nothing had to be evicted for it, nothing
was reserved, and the text of the answer says that it is safe to restore. -/
theorem duplicate_undone {env env₁ env₂ : Env} {text : String} (hs : DuplicateOk s f n text)
    (hx : tryCreateSnapshotOnNode env f n s = .ok () s') (hout : s'.out = s.out ++ [.startWorker rpc]) :
    ∃ t u, s'.call (env₁, .msg (.cleanupDuplicateSnapshot rpc)) = .ok () t ∧
      t.call (env₂, .msg (.startWorkerComplete rpc (some (.commonError text)))) = .ok () u ∧
      DuplicateUndone s u rpc := by
  obtain ⟨h, hplan, rfl, rfl⟩ := started_of_room hs.toSnapshotRoom hx hout
  obtain ⟨fs, ns, nr, req, rest, hf, hn, hP, hreq, halloc⟩ := hplan.alloc
  obtain rfl : nr = ns.available := congrArg Prod.snd hP
  obtain ⟨ns', available, p, hn', hsub, -, hnodes⟩ := h.node
  obtain rfl : ns = ns' := Option.some.inj (hn.symm.trans hn')
  obtain ⟨fs', q, -, hfuncs⟩ := h.func
  obtain ⟨hsub', hadd⟩ := alloc_nothing (hs.nothing fs ns req hf hn hreq) halloc
  obtain rfl : ns.available = available := Except.ok.inj (hsub'.symm.trans hsub)
  have hn'' : s'.nodes[rpc.nodename]? = some { ns with
      pendingPods := ns.pendingPods.insert rpc.podkey p
      stoppingPods := ns.stoppingPods ∪ (podKeys []).toFinset } := by
    rw [hnodes, BTreeMap.get_insert_self]
  have hf' := hfuncs rpc.funcid
  rw [hf, Option.map_some] at hf'
  obtain ⟨t, ht, ⟨⟨nt, hnt, havailable, -⟩, ⟨ft, hft, -⟩, -⟩⟩ :=
    cleanup_drops env₁ hn'' hf' h.terminated hadd
  obtain ⟨u, hu, ⟨⟨nu, hnu, havailable', hpending⟩, ⟨fu, hfu, hpendingf⟩, hmark⟩⟩ :=
    complete_drops env₂ hnt hft h.terminated h.createType hs.safe (by rw [havailable]; exact hadd)
  refine ⟨t, u, ht, hu, fun ns' hns' => ?_, fun fs' hfs' => ?_, hmark, fun k hk => ?_⟩
  · obtain rfl : ns = ns' := Option.some.inj (hn.symm.trans hns')
    exact ⟨nu, hnu, havailable'.trans havailable, hpending⟩
  · obtain rfl : fu = fs' := Option.some.inj (hfu.symm.trans hfs')
    exact hpendingf
  · rw [h.terminated] at hk
    cases hk

namespace Sample

/-- A function that asks for nothing. -/
def tiny : Function := { func with resources := {} }

/-- The function on an empty node. -/
def spare : List Call := [event (.nodeAdded node), event (.funcAdded tiny)]

/-- The request to make a snapshot of it. -/
def tinyRpc : StartRpc :=
  { funcid := func.id, nodename := "n", podkey := "t/s/f/1/1", createType := .snapshot, terminated := []
    resources := { nodename := "n", gpuType := ⟨"A"⟩, gpus := { gpus 100 with map := ∅ }, maxContextCnt := 2 } }

end Sample

theorem duplicateOk_spare :
    DuplicateOk (after Sample.spare) Sample.func.id "n" "DUPLICATE_SNAPSHOT: Connection refused" := by
  have hfuncs : (after Sample.spare).funcs[Sample.func.id]? = some { func := Sample.tiny } := by
    decide +kernel
  have hnodes : (after Sample.spare).nodes["n"]? = some (Sample.status Sample.node.resources ∅) := by
    decide +kernel
  generalize after Sample.spare = s at hfuncs hnodes
  have htiny : Sample.tiny.snapshotResource 2 = .ok { gpu := { contextCount := 2 } } := by
    decide +kernel
  refine ⟨⟨fun fs hf => ?_, fun fs ns req state hf hn hreq hstate => ?_⟩, by decide +kernel,
    fun fs ns req hf hn hreq => ?_⟩
  · obtain rfl := Option.some.inj (hfuncs.symm.trans hf)
    rfl
  · obtain rfl := Option.some.inj (hfuncs.symm.trans hf)
    obtain rfl := Option.some.inj (hnodes.symm.trans hn)
    obtain rfl := Except.ok.inj (htiny.symm.trans hreq)
    have hok : (Sample.node.resources.canAlloc { gpu := { contextCount := 2 } } true).toOption.map
        AllocState.ok = some true := by
      decide +kernel
    replace hstate : Sample.node.resources.canAlloc { gpu := { contextCount := 2 } } true = .ok state :=
      hstate
    rw [hstate] at hok
    exact Option.some.inj hok
  · obtain rfl := Option.some.inj (hfuncs.symm.trans hf)
    obtain rfl := Option.some.inj (hnodes.symm.trans hn)
    obtain rfl := Except.ok.inj (htiny.symm.trans hreq)
    exact ⟨rfl, rfl, rfl⟩

/-- A duplicate of a snapshot that reserved nothing is undone. -/
theorem duplicate_undone_tiny : ∃ s' t u,
    tryCreateSnapshotOnNode {} Sample.func.id "n" (after Sample.spare) = .ok () s' ∧
    s'.call ({}, .msg (.cleanupDuplicateSnapshot Sample.tinyRpc)) = .ok () t ∧
    t.call ({}, .msg (.startWorkerComplete Sample.tinyRpc
      (some (.commonError "DUPLICATE_SNAPSHOT: Connection refused")))) = .ok () u ∧
    DuplicateUndone (after Sample.spare) u Sample.tinyRpc := by
  have hsent : sentBy (tryCreateSnapshotOnNode {} Sample.func.id "n" (after Sample.spare)) =
      some ((after Sample.spare).out ++ [.startWorker Sample.tinyRpc]) := by
    decide +kernel
  obtain ⟨s', hs', hout⟩ := sentBy_eq_some hsent
  obtain ⟨t, u, ht, hu, hundone⟩ := duplicate_undone duplicateOk_spare hs' hout
  exact ⟨s', t, u, hs', ht, hu, hundone⟩

/-- A duplicate snapshot takes the scheduler down. -/
theorem duplicate_panics : ¬ ∀ (s s' t : SchedulerHandler) (env env₁ env₂ : Env) (f n text : String)
    (rpc : StartRpc), s.index.Sound → s.index.Coherent → containsText text "DUPLICATE_SNAPSHOT:" = true →
    tryCreateSnapshotOnNode env f n s = .ok () s' → s'.out = s.out ++ [.startWorker rpc] →
    s'.next (env₁, .msg (.cleanupDuplicateSnapshot rpc)) = some t →
    ∃ u, t.next (env₂, .msg (.startWorkerComplete rpc (some (.commonError text)))) = some u ∧
      DuplicateUndone s u rpc := by
  intro h
  have hsent : sentBy (tryCreateSnapshotOnNode {} Sample.func.id "n" (after Sample.roomy)) =
      some ((after Sample.roomy).out ++ [.startWorker Sample.snapshotRpc]) := by
    decide +kernel
  have hpanic : ((tryCreateSnapshotOnNode {} Sample.func.id "n" (after Sample.roomy)).state?.bind
      (·.next ({}, .msg (.cleanupDuplicateSnapshot Sample.snapshotRpc)))).map
      (fun t => (t.next ({}, .msg (.startWorkerComplete Sample.snapshotRpc
        (some (.commonError "DUPLICATE_SNAPSHOT: t/s/f/1"))))).isSome) = some false := by
    decide +kernel
  have hindex := sound_roomy
  generalize after Sample.roomy = s at hsent hpanic hindex
  obtain ⟨s', hs', hout⟩ := sentBy_eq_some hsent
  rw [hs', Outcome.state?_ok, Option.bind_some] at hpanic
  obtain ⟨t, ht, hnone⟩ := Option.map_eq_some_iff.mp hpanic
  obtain ⟨u, hu, -⟩ := h s s' t {} {} {} _ _ "DUPLICATE_SNAPSHOT: t/s/f/1" _ hindex.1 hindex.2
    (by decide +kernel) hs' hout ht
  rw [hu] at hnone
  cases hnone

end Inferx
