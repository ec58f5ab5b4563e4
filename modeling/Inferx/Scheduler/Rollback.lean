import Inferx.Scheduler.Evicted

/-!
# Rolling back

A pod that is about to be created or resumed has its resources reserved before
the RPC goes out. When the RPC fails and is safe to restore, the completion
gives everything back. `Agrees` compares the state from before the operation
with the one after the completion, and `Undone` says what the completion leaves.

What the completions do not undo are the terminating marks of the pods that were
evicted: these stay in `terminatingPods`. So the roll-back is exact only if the
evicted pods bore the very marks before, and nothing else was kept under the key
of the pod or listed the evicted pods as being stopped.
-/

namespace Inferx

open Proc SchedulerHandler

/-! ## Taking and giving back -/

namespace GPUResourceMap

variable {g g' : GPUResourceMap}

/-- The GPU `id` has room for the charge `b`. -/
structure RoomFor (g : GPUResourceMap) (b a : GPUAlloc) : Prop where
  nonneg : b.Nonneg
  slots : a.slotCnt + b.slotCnt ≤ g.totalSlotCnt.toNat
  contexts : a.contextCnt + b.contextCnt < 9223372036854775808
  nccls : a.ncclCnt + b.ncclCnt < 9223372036854775808

theorem addEntry_eq {e : ℤ × GPUAlloc} {a : GPUAlloc} (ha : g.map[e.1]? = some a)
    (h : g.RoomFor e.2 a) : addEntry g e = .ok { g with map := g.map.insert e.1 (a + e.2) } := by
  obtain ⟨hctx, hslot, hnccl⟩ := h.nonneg
  have htotal := g.totalSlotCnt.toNat_lt
  have hslots := h.slots
  unfold addEntry
  rw [if_neg (by omega), ha]
  dsimp only
  rw [addI64_eq_ok.mpr ⟨rfl, by omega, by omega⟩, Except.ok_bind, if_pos hslots,
    GPUAlloc.add_eq h.nonneg h.contexts (by omega) h.nccls]
  rfl

/-- Giving charges back to GPUs with enough room. -/
theorem foldlM_addEntry {l : List (ℤ × GPUAlloc)} (hl : (l.map Prod.fst).Nodup)
    (h : ∀ e ∈ l, ∃ a, g.map[e.1]? = some a ∧ g.RoomFor e.2 a) :
    ∃ g', l.foldlM addEntry g = .ok g' ∧
      (g'.totalSlotCnt = g.totalSlotCnt ∧ g'.slotSize = g.slotSize) ∧
      (∀ k, k ∉ l.map Prod.fst → g'.map[k]? = g.map[k]?) ∧
      ∀ e ∈ l, ∀ a, g.map[e.1]? = some a → g'.map[e.1]? = some (a + e.2) := by
  induction l generalizing g with
  | nil => exact ⟨g, rfl, ⟨rfl, rfl⟩, fun _ _ => rfl, fun _ he => absurd he List.not_mem_nil⟩
  | cons e l ih =>
    rw [List.map_cons, List.nodup_cons] at hl
    obtain ⟨a, ha, hroom⟩ := h e (List.mem_cons_self ..)
    have hentry := addEntry_eq ha hroom
    have hne : ∀ x ∈ l, x.1 ≠ e.1 := fun x hx heq => hl.1 (heq ▸ List.mem_map_of_mem hx)
    have hrest : ∀ x ∈ l, ∃ b, (g.map.insert e.1 (a + e.2))[x.1]? = some b ∧
        RoomFor { g with map := g.map.insert e.1 (a + e.2) } x.2 b := by
      intro x hx
      obtain ⟨b, hb, hnonneg, hslots, hctx, hnccl⟩ := h x (List.mem_cons_of_mem _ hx)
      exact ⟨b, by rw [BTreeMap.get_insert_of_ne (hne x hx), hb], hnonneg, hslots, hctx, hnccl⟩
    obtain ⟨g', hg', hsame, hother, hthese⟩ :=
      ih (g := { g with map := g.map.insert e.1 (a + e.2) }) hl.2 hrest
    refine ⟨g', ?_, hsame, fun k hk => ?_, fun x hx b hb => ?_⟩
    · rw [List.foldlM_cons, hentry]
      exact hg'
    · rw [List.map_cons, List.mem_cons, not_or] at hk
      rw [hother k hk.2, BTreeMap.get_insert_of_ne hk.1]
    · rcases List.mem_cons.mp hx with rfl | hx
      · obtain rfl : a = b := Option.some.inj (ha.symm.trans hb)
        rw [hother _ hl.1, BTreeMap.get_insert_self]
      · refine hthese x hx b ?_
        rw [BTreeMap.get_insert_of_ne (hne x hx), hb]

/-- No GPU has more free slots than it has slots. -/
def Bounded (g : GPUResourceMap) : Prop :=
  ∀ (id : ℤ) (a : GPUAlloc), g.map[id]? = some a → a.slotCnt ≤ g.totalSlotCnt.toNat

instance (g : GPUResourceMap) : Decidable g.Bounded :=
  decidable_of_iff (∀ p ∈ g.map.toList, p.2.slotCnt ≤ g.totalSlotCnt.toNat)
    ⟨fun h id a ha => h (id, a) (BTreeMap.mem_toList.mpr ha),
      fun h p hp => h p.1 p.2 (BTreeMap.mem_toList.mp hp)⟩

/-- The amounts are `i64` values. -/
def IsI64 (g : GPUResourceMap) : Prop :=
  ∀ (id : ℤ) (a : GPUAlloc), g.map[id]? = some a →
    a.contextCnt < 9223372036854775808 ∧ a.ncclCnt < 9223372036854775808

end GPUResourceMap

/-- The amounts of the node are `i64` values. -/
structure NodeResources.IsI64 (a : NodeResources) : Prop where
  memory : -9223372036854775808 ≤ a.memory ∧ a.memory < 9223372036854775808
  cacheMemory : -9223372036854775808 ≤ a.cacheMemory ∧ a.cacheMemory < 9223372036854775808
  gpus : a.gpus.IsI64

/-- What an allocation is made of fits the node it was made on. -/
theorem NodeResources.gpuType_of_alloc {a b x : NodeResources} {req : Resources} {c : Bool}
    (h : a.alloc req c = .ok (.ok x, b)) : x.gpuType = a.gpuType := by
  unfold NodeResources.alloc at h
  obtain ⟨state, -, h⟩ := Except.bind_eq_ok.mp h
  split at h
  next =>
    obtain ⟨memory, -, h⟩ := Except.bind_eq_ok.mp h
    obtain ⟨cache, -, h⟩ := Except.bind_eq_ok.mp h
    obtain ⟨⟨g, rest⟩, -, h⟩ := Except.bind_eq_ok.mp h
    obtain ⟨hx, -⟩ := Prod.mk.inj (Except.ok.inj h)
    rcases g with e | g
    · cases hx
    · rw [← Except.ok.inj hx]
  next => cases h

/-- A snapshot of the function is being made on the node. -/
def SnapshotPending (s : SchedulerHandler) (f n : String) : Prop :=
  ∃ nodes, s.pendingsnapshots[f]? = some nodes ∧ n ∈ nodes

/-- The two records of a node account for the same. -/
structure NodeStatus.Agrees (a b : NodeStatus) : Prop where
  /-- what is left -/
  available : a.available = b.available
  /-- the pods -/
  pods : a.pods = b.pods
  /-- the reservations -/
  pendingPods : a.pendingPods = b.pendingPods
  /-- the pods being stopped -/
  stoppingPods : a.stoppingPods = b.stoppingPods

/-- The two records of a function account for the same. -/
structure FuncStatus.Agrees (a b : FuncStatus) : Prop where
  /-- the pods -/
  pods : a.pods = b.pods
  /-- the reservations -/
  pendingPods : a.pendingPods = b.pendingPods
  /-- the pods being stopped -/
  stoppingPods : a.stoppingPods = b.stoppingPods

/-- Two states agree on everything a roll-back has to undo. -/
structure Agrees (s t : SchedulerHandler) : Prop where
  /-- the nodes -/
  nodes : ∀ n : String, Option.Rel NodeStatus.Agrees s.nodes[n]? t.nodes[n]?
  /-- the functions -/
  funcs : ∀ f : String, Option.Rel FuncStatus.Agrees s.funcs[f]? t.funcs[f]?
  /-- the snapshots being made -/
  pendingsnapshots : ∀ f n, SnapshotPending s f n ↔ SnapshotPending t f n
  /-- the terminating marks -/
  terminatingPods : s.terminatingPods = t.terminatingPods
  /-- the idle pool -/
  idlePods : ∀ k, k ∈ s.idlePods ↔ k ∈ t.idlePods
  /-- the pods -/
  pods : s.pods = t.pods
  /-- their worker states -/
  states : ∀ (k : String) (w : WorkerPod), s.pods[k]? = some w → s.stateOf w = t.stateOf w

/-! ## What the search leaves -/

variable {s s' t u v : SchedulerHandler} {f n key : String} {ws : List WorkerPod}

/-- The resources are of the type that the node has. -/
def OfNode (s : SchedulerHandler) (n : String) (nr : NodeResources) : Prop :=
  ∃ ns, s.nodes[n]? = some ns ∧ nr.gpuType = ns.available.gpuType

/-- What can be evicted from the node `n`, and what the node then has. -/
def PlanFrom (s : SchedulerHandler) (n : String) (ws : List WorkerPod) (nr : NodeResources) : Prop :=
  Evictable s n ws ∧ OfNode s n nr

/-- What is reserved for a snapshot whose creation has been asked for, after `ws` have been
evicted. -/
structure Started (s s' : SchedulerHandler) (rpc : StartRpc) (ws : List WorkerPod) (now : ℕ) : Prop where
  /-- the pods can be evicted -/
  evictable : Evictable s rpc.nodename ws
  /-- they are named in the RPC -/
  terminated : rpc.terminated = podKeys ws
  /-- on the node, the resources have been taken -/
  node : ∃ ns available p, s.nodes[rpc.nodename]? = some ns ∧ ns.available.sub rpc.resources = .ok available ∧
    rpc.resources.gpuType = ns.available.gpuType ∧
    s'.nodes = s.nodes.insert rpc.nodename { ns with
      available, pendingPods := ns.pendingPods.insert rpc.podkey p
      stoppingPods := ns.stoppingPods ∪ (podKeys ws).toFinset }
  /-- in the function -/
  func : ∃ fs p, s.funcs[rpc.funcid]? = some fs ∧ ∀ g : String, s'.funcs[g]? = s.funcs[g]?.map fun fs =>
    { fs with
      pendingPods := if g = rpc.funcid then fs.pendingPods.insert rpc.podkey p else fs.pendingPods
      stoppingPods := fs.stoppingPods ∪ podKeysOf ws g }
  /-- the mark -/
  mark : s'.pendingsnapshots = (s.addPendingSnapshot rpc.funcid rpc.nodename).pendingsnapshots
  /-- there was none -/
  unmarked : ¬ SnapshotPending s rpc.funcid rpc.nodename
  /-- what the RPC is for -/
  createType : rpc.createType = .snapshot
  /-- the evicted pods are marked -/
  terminatingPods : s'.terminatingPods = marked now ws s.terminatingPods
  /-- out of the pool -/
  idlePods : ∀ k, k ∈ s'.idlePods ↔ k ∈ s.idlePods ∧ k ∉ podKeys ws
  /-- and terminating -/
  states : ∀ r, (s'.workers r).state = if r ∈ ws.map WorkerPod.ref then .terminating else (s.workers r).state
  /-- nothing else has changed -/
  rest : (s'.pods, s'.delayedTasks, s'.funcpolicy, s'.config) = (s.pods, s.delayedTasks, s.funcpolicy, s.config)

variable {rpc : StartRpc}

theorem ends_startWorker (env : Env) (func : Function) (r : NodeResources) (c : CreatePodType)
    (ws : List WorkerPod) (n : String) (s : SchedulerHandler) :
    Ends (startWorker env func r c ws n) s fun id t => id = s.lastUid + 1 ∧
      t = { s with lastUid := s.lastUid + 1 }.emit (.startWorker
        { funcid := func.id, nodename := n, createType := c, resources := r, terminated := podKeys ws
          podkey := funcPodKey func.tenant func.nameSpace func.name func.version
            (toString (s.lastUid + 1)) }) := by
  unfold Ends startWorker
  rw [wp_bind, wp_get]
  split
  next => exact ⟨rfl, rfl⟩
  next => trivial

/-- What the search for room for a snapshot returns satisfies `P`. -/
abbrev SearchEnds (env : Env) (s : SchedulerHandler) (f n : String)
    (P : NodeStatus → List WorkerPod × NodeResources → Prop) : Prop :=
  ∀ fs ns req, s.funcs[f]? = some fs → s.nodes[n]? = some ns →
    fs.func.snapshotResource (asU64 ns.node.resources.maxContextCnt) = .ok req →
    Ends (snapshotEvictions env f n ns.available req) s fun r t => s = t ∧ PlanFrom s n r.1 r.2 ∧ P ns r

/-- What is known of the plan `(ws, nr)` of a snapshot whose creation has been asked for. -/
structure Planned (s : SchedulerHandler) (rpc : StartRpc) (ws : List WorkerPod)
    (P : NodeStatus → List WorkerPod × NodeResources → Prop) : Prop where
  /-- what has been taken is what a snapshot of the function asks for -/
  alloc : ∃ fs ns nr req rest, s.funcs[rpc.funcid]? = some fs ∧ s.nodes[rpc.nodename]? = some ns ∧
    P ns (ws, nr) ∧ fs.func.snapshotResource (asU64 ns.node.resources.maxContextCnt) = .ok req ∧
    nr.alloc req true = .ok (.ok rpc.resources, rest)

/-- The reservation itself. -/
theorem ends_createSnapshotOnNode (env : Env) {fs : FuncStatus} {ns : NodeStatus}
    {P : NodeStatus → List WorkerPod × NodeResources → Prop} (hsearch : SearchEnds env s f n P)
    (hid : fs.func.id = f) (hf : s.funcs[f]? = some fs) (hn : s.nodes[n]? = some ns)
    (hunmarked : ¬ SnapshotPending s f n) :
    Ends (createSnapshotOnNode env fs.func f n ns) s fun _ t =>
      t.out = s.out ++ [.startWorker rpc] → ∃ ws, Started s t rpc ws env.now ∧ Planned s rpc ws P ∧
        rpc.funcid = f ∧ rpc.nodename = n := by
  unfold Ends createSnapshotOnNode
  rw [wp_bind]
  refine ends_liftFault fun req hreq => ?_
  rw [wp_bind]
  refine ends_liftFault fun _ _ => ?_
  split
  next => trivial
  next =>
    rw [wp_bind]
    refine wp_mono (hsearch fs ns req hf hn hreq) ?_ (fun _ _ h => h) fun _ h => h
    rintro ⟨ws, nr⟩ _ ⟨rfl, ⟨hevictable, ns', hns', hnr⟩, hplan⟩
    obtain rfl : ns = ns' := Option.some.inj (hn.symm.trans hns')
    show (reserveEvicting env fs.func n ws nr >>= _).wp _ _ _ s
    unfold reserveEvicting
    rw [wp_bind, wp_bind]
    refine wp_mono (ends_evictIdle env ws s) ?_ (fun _ _ h => h) fun _ h => h
    rintro - _ rfl
    rw [wp_bind]
    refine ends_getNode fun ns₁ hns₁ => ?_
    have hevicted := evicted_of_get env hn ws
    rw [wp_bind, wp_modify]
    have hmax : ns₁.node = ns.node := by
      have hnodes : ((s.popAll ws).markAllTerminating env ws).nodes = s.nodes := by
        rw [popAll_eq, markAllTerminating_eq]
      rw [hnodes, hn] at hns₁
      rw [← Option.some.inj hns₁]
    rw [hmax]
    generalize ((s.popAll ws).markAllTerminating env ws).addStoppingPods n ws = u at hevicted ⊢
    have hun : u.nodes[n]? =
        some { ns with stoppingPods := ns.stoppingPods ∪ (podKeys ws).toFinset } := by
      rw [hevicted.nodes, BTreeMap.get_insert_self]
    have hrest := hevicted.rest
    simp only [Prod.mk.injEq] at hrest
    obtain ⟨hpods, hpending, hdelayed, hpolicies, hconfig, hsent, huid⟩ := hrest
    rw [wp_bind]
    refine ends_liftFault fun req' hreq' => ?_
    rw [wp_bind]
    refine wp_mono (ends_allocFrom nr req' true u) ?_ (fun _ _ h => h) fun _ h => h
    rintro r _ ⟨rfl, rest, halloc⟩
    have htype := (NodeResources.gpuType_of_alloc halloc).trans hnr
    rw [wp_bind]
    refine wp_mono (ends_reserve r _ hun) ?_ (fun _ _ h => h) fun _ h => h
    rintro - _ ⟨available, havailable, rfl⟩
    rw [wp_pure]
    unfold startSnapshotWorker
    rw [wp_bind, wp_attempt]
    refine wp_mono (ends_startWorker env fs.func r .snapshot ws n _) ?_ (fun e t _ => ?_) fun _ h => h
    rotate_left
    · rw [wp_bind, wp_modify]
      exact ends_bind_throw _ _ _ _
    rintro id _ ⟨rfl, rfl⟩
    rw [wp_bind, wp_modify, wp_modify]
    intro hout
    replace hout : u.out ++ _ = s.out ++ [Effect.startWorker rpc] := hout
    rw [hsent] at hout
    obtain rfl := Effect.startWorker.inj (List.cons.inj (List.append_cancel_left hout)).1
    refine ⟨ws, ?_, ⟨fs, ns, nr, req', rest, ?_, hn, hplan, hreq', halloc⟩, hid, rfl⟩
    · exact
        { evictable := hevictable
          terminated := rfl
          node := by
            refine ⟨ns, available, newPendingPod env fs.func n f (u.lastUid + 1) r, hn, havailable, htype, ?_⟩
            show (u.nodes.modify n _).modify n _ = _
            rw [insert_of_modify hun, insert_of_modify (BTreeMap.get_insert_self ..), insert_insert_self,
              hevicted.nodes, insert_insert_self]
            rfl
          func := by
            refine ⟨fs, newPendingPod env fs.func n f (u.lastUid + 1) r, ?_, fun g => ?_⟩
            · rw [hid]
              exact hf
            · show (u.funcs.modify f _)[g]? = _
              rw [BTreeMap.get_modify, hevicted.funcs, hid]
              by_cases hg : g = f
              · simp only [if_pos hg, Option.map_map]
                rfl
              · simp only [if_neg hg]
          mark := by
            show (u.addPendingSnapshot f n).pendingsnapshots = _
            unfold addPendingSnapshot
            rw [hpending, hid]
          unmarked := by
            rw [hid]
            exact hunmarked
          createType := rfl
          terminatingPods := hevicted.terminatingPods
          idlePods := hevicted.idlePods
          states := hevicted.states
          rest := by
            show (u.pods, u.delayedTasks, u.funcpolicy, u.config) = _
            rw [hpods, hdelayed, hpolicies, hconfig] }
    · rw [hid]
      exact hf

/-- **The reservation of a snapshot.** -/
theorem started_of_tryCreate {env : Env} {P : NodeStatus → List WorkerPod × NodeResources → Prop}
    (hsearch : SearchEnds env s f n P) (hid : ∀ fs, s.funcs[f]? = some fs → fs.func.id = f)
    (hx : tryCreateSnapshotOnNode env f n s = .ok () s') (hout : s'.out = s.out ++ [.startWorker rpc]) :
    ∃ ws, Started s s' rpc ws env.now ∧ Planned s rpc ws P ∧ rpc.funcid = f ∧ rpc.nodename = n := by
  have hends : Ends (tryCreateSnapshotOnNode env f n) s fun _ t =>
      t.out = s.out ++ [.startWorker rpc] → ∃ ws, Started s t rpc ws env.now ∧ Planned s rpc ws P ∧
        rpc.funcid = f ∧ rpc.nodename = n := by
    have hskip : s.out = s.out ++ [.startWorker rpc] → ∃ ws, Started s s rpc ws env.now ∧
        Planned s rpc ws P ∧ rpc.funcid = f ∧ rpc.nodename = n := by
      intro h
      simp at h
    unfold Ends tryCreateSnapshotOnNode
    rw [wp_bind, wp_get]
    split
    next => exact hskip
    next hnew =>
      split
      next fs ns hf hn =>
        split
        next => exact hskip
        next =>
          split
          next => trivial
          next =>
            split
            next => exact ends_bind_throw _ _ _ _
            next =>
              refine ends_createSnapshotOnNode env hsearch (hid fs hf) hf hn ?_
              rintro ⟨nodes, hnodes, hmem⟩
              refine hnew ?_
              rw [hnodes]
              simp [hmem]
      next => exact hskip
  exact hends.ok hx hout

/-! ## The completion of a snapshot -/

theorem bind_modify {α : Type} (g : SchedulerHandler → SchedulerHandler) (x : Unit → SchedM α) :
    ((Proc.modify g : SchedM Unit) >>= x) s = x () (g s) := rfl

/-- Giving back to a node that is there. -/
theorem freeNodeResource_eq {r : NodeResources} {ns : NodeStatus} (hn : s.nodes[n]? = some ns) :
    freeNodeResource n r s = match ns.available.add r with
      | .ok available => .ok () { s with nodes := s.nodes.insert n { ns with available } }
      | .error e => .panic (.fault e) := by
  unfold freeNodeResource
  rw [bind_ok (show (get : SchedM SchedulerHandler) s = .ok s s from rfl), hn]
  show (liftFault (ns.freeResource r) >>= _) s = _
  unfold NodeStatus.freeResource
  rcases ns.available.add r with e | available
  · rfl
  · rfl

theorem freeNodeResource_ok {r available : NodeResources} {ns : NodeStatus} (hn : s.nodes[n]? = some ns)
    (hadd : ns.available.add r = .ok available) :
    freeNodeResource n r s = .ok () { s with nodes := s.nodes.insert n { ns with available } } := by
  rw [freeNodeResource_eq hn, hadd]

theorem addSnapshotTask_eq {env : Env} (fs : FuncStatus) (hf : s.funcs[f]? = some fs) :
    addSnapshotTask env n f s = .ok () (if (s.policyOf fs.func).standbyPerNode = 0 then s
      else s.scheduleDelayedTask env 1000 (.snapshotTask f n)) := by
  unfold addSnapshotTask
  rw [bind_ok (show (get : SchedM SchedulerHandler) s = .ok s s from rfl), hf]
  show (ite _ _ _ : SchedM Unit) s = _
  split
  next => rfl
  next => rfl

theorem policyOf_congr (func : Function) (hpolicies : t.funcpolicy = s.funcpolicy)
    (hconfig : t.config = s.config) : t.policyOf func = s.policyOf func := by
  unfold policyOf funcPolicy resolveReferencedFuncPolicy
  rw [hpolicies, hconfig]

theorem removePendingSnapshot_eq (s : SchedulerHandler) (f n : String) : s.removePendingSnapshot f n =
    { s with pendingsnapshots := (s.removePendingSnapshot f n).pendingsnapshots } := by
  unfold removePendingSnapshot
  split
  next => rfl
  next => rfl

/-! ## What a roll-back leaves -/

/-- The roll-back finds nothing but what the operation itself has left: nothing was reserved
under the key of the pod, and the pods that were evicted were not being stopped and bore the
very marks. -/
structure Clear (s : SchedulerHandler) (n f key : String) (terminated : List String) (now : ℕ) : Prop where
  /-- nothing is reserved under the key on the node -/
  node : ∀ ns, s.nodes[n]? = some ns → ns.pendingPods[key]? = none
  /-- nor in the function -/
  func : ∀ fs, s.funcs[f]? = some fs → fs.pendingPods[key]? = none
  /-- the node stops none of the pods that are evicted -/
  node_stopping : ∀ ns, s.nodes[n]? = some ns → ∀ k ∈ terminated, k ∉ ns.stoppingPods
  /-- nor does the function of each -/
  func_stopping : ∀ k ∈ terminated, ∀ w fs, s.pods[k]? = some w → s.funcs[w.pod.funcKey]? = some fs →
    k ∉ fs.stoppingPods
  /-- and they bear the marks of the eviction already -/
  marked : ∀ k ∈ terminated, s.terminatingPods[k]? = some { since := now }

namespace SchedulerHandler

/-- The nodes with a standby pod of the function. -/
def resumeNodes (s : SchedulerHandler) (fp : Function) : List String :=
  sortedNames (((s.getFuncPodsByKey fp.id).filter fun p =>
    p.pod.state == .standby && s.isNodeReady p.pod.nodename).map fun p => p.pod.nodename)

end SchedulerHandler

/-- Decidable on the pool and the tracked pods. -/
instance (s : SchedulerHandler) : Decidable (IdlePool s) :=
  decidable_of_iff ((∀ k ∈ s.idlePods.keys, ∃ w ∈ s.pods[k]?, s.stateOf w = .idle ∧ w.pod.state = .ready) ∧
      ∀ p ∈ s.pods.toList, s.stateOf p.2 = .idle → p.2.pod.state = .ready → p.1 ∈ s.idlePods.keys) <| by
    constructor
    · rintro ⟨hin, hout⟩ k
      refine ⟨fun hk => ?_, fun ⟨w, hw, hidle, hready⟩ => ?_⟩
      · obtain ⟨w, hw, hidle, hready⟩ := hin k hk
        exact ⟨w, hw, hidle, hready⟩
      · exact hout (k, w) (BTreeMap.mem_toList.mpr hw) hidle hready
    · intro h
      refine ⟨fun k hk => ?_, fun p hp hidle hready => ?_⟩
      · obtain ⟨w, hw, hidle, hready⟩ := (h k).mp hk
        exact ⟨w, hw, hidle, hready⟩
      · exact (h p.1).mpr ⟨p.2, BTreeMap.mem_toList.mp hp, hidle, hready⟩

namespace Sample

/-- A function on an empty node. -/
def roomy : List Call := [event (.nodeAdded node), event (.funcAdded func)]

/-- The node agent cannot be reached. -/
def refused : Error := .commonError "Connection refused"

end Sample

/-- The epoch of the node stays the same in these runs. -/
theorem sound_roomy : (after Sample.roomy).index.Sound ∧ (after Sample.roomy).index.Coherent := by
  refine index_of_reach (.step (c := Sample.event (.funcAdded Sample.func)) (.step
    (c := Sample.event (.nodeAdded Sample.node)) (.init fresh_new) ?_
    (next_after (l := []) (by decide +kernel))) ⟨trivial, trivial⟩
    (next_after (l := [_]) (by decide +kernel)))
  exact ⟨trivial, fun hnew => absurd hnew (by decide +kernel)⟩

namespace Sample

/-- The record of the node, with nothing reserved on it. -/
def status (available : NodeResources) (pods : BTreeMap String WorkerPod) : NodeStatus :=
  { node, total := node.resources, available, pods, state := .nodeAgentReady }

end Sample

namespace Sample

/-- What is reserved of the node. -/
def charge (memory : ℤ) (gpu : GPUAlloc) : NodeResources :=
  { nodename := "n", memory, gpuType := ⟨"A"⟩, maxContextCnt := 2
    gpus := { gpus 100 with map := (∅ : BTreeMap ℤ GPUAlloc).insert 0 gpu } }

/-- The request to make a snapshot on the empty node. -/
def snapshotRpc : StartRpc :=
  { funcid := func.id, nodename := "n", podkey := "t/s/f/1/1", createType := .snapshot
    resources := charge 10 { contextCnt := 2, slotCnt := 20, ncclCnt := 1 }, terminated := [] }

end Sample

/-- What a procedure has sent, when it returned normally. -/
def sentBy (x : Outcome Error Panic SchedulerHandler Unit) : Option (List Effect) :=
  match x with
  | .ok _ s => some s.out
  | _ => none

theorem sentBy_eq_some {x : Outcome Error Panic SchedulerHandler Unit} {l : List Effect}
    (h : sentBy x = some l) : ∃ s, x = .ok () s ∧ s.out = l := by
  unfold sentBy at h
  split at h
  next a s => exact ⟨s, rfl, Option.some.inj h⟩
  next => cases h

namespace Sample

end Sample

end Inferx
