import Mathlib.Algebra.BigOperators.Group.List.Lemmas
import Mathlib.Algebra.Ring.Int.Defs
import Inferx.Scheduler.IdlePool
import Inferx.Scheduler.ResumeResource
import Inferx.Scheduler.Rollback

/-!
# What a plan of evictions promises

Both searches for room go through the idle pool once, oldest first, and collect
pods to evict while they add up what these would free. `findNode4Pod` does so
for all candidate nodes at the same time. A plan belongs to one node, and what
it says about that node and about the functions that lose a pod is kept by each
pod that joins it: the policy check of the next pod counts those already in.
-/

namespace Inferx

open Proc SchedulerHandler

/-! ## Amounts -/

/-- The amounts a node has. -/
inductive Part where
  | memory | cacheMemory
  | contexts (gpu : ℤ)
  | slots (gpu : ℤ)
  | nccls (gpu : ℤ)
  deriving DecidableEq, Repr

/-- The amounts on one GPU, or none. -/
def GPUResourceMap.on (self : GPUResourceMap) (gpu : ℤ) : GPUAlloc := self.map[gpu]?.getD ⟨0, 0, 0⟩

/-- How much of a part there is. -/
def NodeResources.amount (nr : NodeResources) : Part → ℤ
  | .memory => nr.memory
  | .cacheMemory => nr.cacheMemory
  | .contexts gpu => (nr.gpus.on gpu).contextCnt
  | .slots gpu => (nr.gpus.on gpu).slotCnt
  | .nccls gpu => (nr.gpus.on gpu).ncclCnt

namespace GPUResourceMap

variable {g g' x : GPUResourceMap}

/-- What giving back the charges of distinct GPUs adds. -/
theorem on_foldlM_addEntry {l : List (ℤ × GPUAlloc)} (hl : (l.map Prod.fst).Nodup)
    (h : l.foldlM addEntry g = .ok g') :
    (∀ k, k ∉ l.map Prod.fst → g'.on k = g.on k) ∧ ∀ e ∈ l, g'.on e.1 = g.on e.1 + e.2 := by
  induction l generalizing g with
  | nil =>
    obtain rfl := Except.ok.inj h
    exact ⟨fun _ _ => rfl, fun _ he => absurd he List.not_mem_nil⟩
  | cons e l ih =>
    rw [List.map_cons, List.nodup_cons] at hl
    rw [List.foldlM_cons] at h
    obtain ⟨g₁, hentry, h⟩ := Except.bind_eq_ok.mp h
    -- one entry adds to its own GPU only
    have hone : (∀ k, k ≠ e.1 → g₁.on k = g.on k) ∧ g₁.on e.1 = g.on e.1 + e.2 := by
      unfold addEntry at hentry
      split at hentry
      next => cases hentry
      next =>
        rcases ha : g.map[e.1]? with _ | a
        · rw [ha] at hentry
          obtain rfl := Except.ok.inj hentry
          refine ⟨fun k hk => ?_, ?_⟩
          · unfold on
            rw [BTreeMap.get_insert_of_ne hk]
          · unfold on
            rw [BTreeMap.get_insert_self, ha]
            show e.2 = GPUAlloc.mk (0 + e.2.contextCnt) (0 + e.2.slotCnt) (0 + e.2.ncclCnt)
            simp
        · rw [ha] at hentry
          obtain ⟨slotCnt, -, hentry⟩ := Except.bind_eq_ok.mp hentry
          split at hentry
          next =>
            obtain ⟨a', hadd, hentry⟩ := Except.bind_eq_ok.mp hentry
            obtain rfl := GPUAlloc.eq_of_add hadd
            obtain rfl := Except.ok.inj hentry
            refine ⟨fun k hk => ?_, ?_⟩
            · unfold on
              rw [BTreeMap.get_insert_of_ne hk]
            · unfold on
              rw [BTreeMap.get_insert_self, ha]
              rfl
          next => cases hentry
    obtain ⟨hother, hthese⟩ := ih hl.2 h
    refine ⟨fun k hk => ?_, fun y hy => ?_⟩
    · rw [List.map_cons, List.mem_cons, not_or] at hk
      rw [hother k hk.2, hone.1 k hk.1]
    · rcases List.mem_cons.mp hy with rfl | hy
      · rw [hother _ hl.1, hone.2]
      · have hne : y.1 ≠ e.1 := fun heq => hl.1 (heq ▸ List.mem_map_of_mem hy)
        rw [hthese y hy, hone.1 _ hne]

theorem on_add (h : g.add x = .ok g') (k : ℤ) : g'.on k = g.on k + x.on k := by
  unfold add at h
  obtain ⟨hother, hthese⟩ := on_foldlM_addEntry (nodup_keys x.map) h
  rcases hk : x.map[k]? with _ | a
  · have hnot : k ∉ x.map.toList.map Prod.fst := by
      intro hmem
      obtain ⟨⟨k', a⟩, ha, rfl⟩ := List.mem_map.mp hmem
      rw [BTreeMap.mem_toList.mp ha] at hk
      cases hk
    rw [hother k hnot]
    show g.on k = g.on k + (x.map[k]?).getD _
    rw [hk]
    show g.on k = GPUAlloc.mk ((g.on k).contextCnt + 0) ((g.on k).slotCnt + 0) ((g.on k).ncclCnt + 0)
    simp
  · rw [hthese (k, a) (BTreeMap.mem_toList.mpr hk)]
    show g.on k + a = g.on k + (x.map[k]?).getD _
    rw [hk]
    rfl

end GPUResourceMap

/-- Giving back adds, part by part. -/
theorem NodeResources.amount_add {nr nr' x : NodeResources} (h : nr.add x = .ok nr') (p : Part) :
    nr'.amount p = nr.amount p + x.amount p := by
  unfold NodeResources.add at h
  split at h
  next =>
    obtain ⟨g, hg, h⟩ := Except.bind_eq_ok.mp h
    obtain ⟨memory, hmem, h⟩ := Except.bind_eq_ok.mp h
    obtain ⟨cache, hcache, h⟩ := Except.bind_eq_ok.mp h
    obtain rfl := Except.ok.inj h
    cases p with
    | memory => exact (addI64_eq_ok.mp hmem).1
    | cacheMemory => exact (addI64_eq_ok.mp hcache).1
    | contexts k =>
      show (g.on k).contextCnt = _
      rw [GPUResourceMap.on_add hg]
      rfl
    | slots k =>
      show (g.on k).slotCnt = _
      rw [GPUResourceMap.on_add hg]
      rfl
    | nccls k =>
      show (g.on k).ncclCnt = _
      rw [GPUResourceMap.on_add hg]
      rfl
  next => cases h

/-! ## Plans -/

/-- How many of the pods are of a function. -/
def evictedOf (f : String) (ws : List WorkerPod) : ℕ :=
  (ws.filter fun w => w.pod.funcKey == f).length

/-- The policy that decides whether a pod may go: one with the name of its function, or else the
one that the pod has carried since it was started. -/
def SchedulerHandler.podPolicy (s : SchedulerHandler) (w : WorkerPod) : FuncPolicySpec :=
  s.funcPolicy w.pod.tenant w.pod.nameSpace w.pod.funcname w.pod.policy

/-- The pods `ws` of the idle pool, under the keys `keys`, can go from the node `n`, which then
has `nr` instead of `available`. -/
structure PlanFor (s : SchedulerHandler) (n : String) (available nr : NodeResources)
    (keys : List String) (ws : List WorkerPod) : Prop where
  /-- they are distinct -/
  nodup : keys.Nodup
  /-- they are in the pool -/
  pooled : ∀ k ∈ keys, k ∈ s.idlePods
  /-- they are tracked -/
  tracked : keys.map (fun k => s.pods[k]?) = ws.map some
  /-- they are on the node -/
  node : ∀ w ∈ ws, w.pod.nodename = n
  /-- the node has what it had, and what they held -/
  freed : ∀ p, nr.amount p
    = available.amount p + (ws.map fun w => w.pod.allocResources.amount p).sum
  /-- no function loses more replicas than it has -/
  counted : ∀ f, evictedOf f ws ≤ s.readyPodCount f
  /-- a function keeps the minimum of the policy of the pod that it loses last -/
  replicas : ∀ ws₁ w ws₂, ws = ws₁ ++ w :: ws₂ → (∀ v ∈ ws₂, v.pod.funcKey ≠ w.pod.funcKey) →
    (s.podPolicy w).minReplica ≤ s.readyPodCount w.pod.funcKey - evictedOf w.pod.funcKey ws

namespace PlanFor

variable {s : SchedulerHandler} {n : String} {available nr nr' : NodeResources} {keys : List String}
  {ws : List WorkerPod} {w : WorkerPod} {k : String}

/-- Nothing has to go. -/
theorem nil (s : SchedulerHandler) (n : String) (nr : NodeResources) : PlanFor s n nr nr [] [] where
  nodup := List.nodup_nil
  pooled _ h := nomatch h
  tracked := rfl
  node _ h := nomatch h
  freed p := by rw [List.map_nil, List.sum_nil, add_zero]
  counted _ := Nat.zero_le _
  replicas ws₁ w ws₂ h _ := by
    have hlen := congrArg List.length h
    rw [List.length_append, List.length_cons, List.length_nil] at hlen
    omega

theorem evictedOf_snoc (f : String) (ws : List WorkerPod) (w : WorkerPod) :
    evictedOf f (ws ++ [w]) = evictedOf f ws + if w.pod.funcKey = f then 1 else 0 := by
  unfold evictedOf
  rw [List.filter_append, List.length_append]
  by_cases h : w.pod.funcKey = f <;> simp [h]

/-- The policy check of a further pod does not underflow. -/
theorem verify (h : PlanFor s n available nr keys ws) (w : WorkerPod) :
    s.verifyMinReplicaPolicy w ws = .ok (decide ((s.podPolicy w).minReplica
      < s.readyPodCount w.pod.funcKey - evictedOf w.pod.funcKey ws)) :=
  if_neg (Nat.not_lt.mpr (h.counted w.pod.funcKey))

/-- **One more pod**, after its policy check. -/
theorem snoc (h : PlanFor s n available nr keys ws) (hk : s.pods[k]? = some w) (hnew : k ∉ keys)
    (hpool : k ∈ s.idlePods) (hn : w.pod.nodename = n)
    (hpolicy : s.verifyMinReplicaPolicy w ws = .ok true)
    (hadd : nr.add w.pod.allocResources = .ok nr') :
    PlanFor s n available nr' (keys ++ [k]) (ws ++ [w]) := by
  have hmore : (s.podPolicy w).minReplica
      < s.readyPodCount w.pod.funcKey - evictedOf w.pod.funcKey ws :=
    of_decide_eq_true (Except.ok.inj ((h.verify w).symm.trans hpolicy))
  refine ⟨?_, ?_, ?_, ?_, fun p => ?_, fun f => ?_, fun ws₁ v ws₂ hv hlast => ?_⟩
  · rw [List.nodup_append]
    refine ⟨h.nodup, List.nodup_singleton _, fun a ha b hb => ?_⟩
    rintro rfl
    exact hnew (List.mem_singleton.mp hb ▸ ha)
  · intro a ha
    rcases List.mem_append.mp ha with ha | ha
    · exact h.pooled a ha
    · rw [List.mem_singleton.mp ha]
      exact hpool
  · rw [List.map_append, List.map_append, h.tracked, List.map_singleton, List.map_singleton, hk]
  · intro v hv
    rcases List.mem_append.mp hv with hv | hv
    · exact h.node v hv
    · rw [List.mem_singleton.mp hv]
      exact hn
  · rw [NodeResources.amount_add hadd, h.freed p, List.map_append, List.sum_append,
      List.map_singleton, List.sum_singleton, add_assoc]
  · rw [evictedOf_snoc]
    split
    next hf =>
      subst hf
      omega
    next => exact h.counted f
  · rcases List.eq_nil_or_concat' ws₂ with rfl | ⟨ws₂, u, rfl⟩
    · obtain ⟨rfl, hvw⟩ := List.append_inj' hv rfl
      obtain rfl := (List.cons.inj hvw).1
      rw [evictedOf_snoc, if_pos rfl]
      omega
    · rw [← List.cons_append, ← List.append_assoc] at hv
      obtain ⟨hws, hu⟩ := List.append_inj' hv rfl
      obtain rfl := (List.cons.inj hu).1
      rw [evictedOf_snoc, if_neg (hlast w (List.mem_append_right _ List.mem_cons_self)), add_zero]
      exact h.replicas ws₁ v ws₂ hws fun x hx => hlast x (List.mem_append_left _ hx)

/-- The pool holds idle pods only. -/
theorem idle (h : PlanFor s n available nr keys ws) (hpool : IdlePool s) (hw : w ∈ ws) :
    s.stateOf w = .idle ∧ w.pod.state = .ready := by
  have hmem : some w ∈ keys.map fun k => s.pods[k]? := h.tracked ▸ List.mem_map_of_mem hw
  obtain ⟨k, hk, hkw⟩ := List.mem_map.mp hmem
  obtain ⟨w', hw', hidle⟩ := (hpool k).mp (h.pooled k hk)
  obtain rfl := Option.some.inj (hkw.symm.trans hw')
  exact hidle

end PlanFor


/-! ## The searches -/

/-- The plan of a candidate node, with the keys `l` of the pool still to come. -/
def PlanOn (s : SchedulerHandler) (func : Function) (cands l : List String) (n : String)
    (plan : EvictionPlan) : Prop :=
  n ∈ cands ∧ ∃ node, s.nodes[n]? = some node ∧
    ∃ keys, PlanFor s n node.available plan.nr keys plan.workids ∧ (∀ k ∈ keys, k ∉ l) ∧
      ∀ w ∈ plan.workids, w.pod.funcKey ≠ func.id

theorem PlanOn.mono {s : SchedulerHandler} {func : Function} {cands l l' : List String} {n : String}
    {plan : EvictionPlan} (h : PlanOn s func cands l n plan) (hl : ∀ k ∈ l', k ∈ l) :
    PlanOn s func cands l' n plan := by
  obtain ⟨hn, node, hnode, keys, hplan, hkeys, hother⟩ := h
  exact ⟨hn, node, hnode, keys, hplan, fun k hk hmem => hkeys k hk (hl k hmem), hother⟩

namespace SchedulerHandler

variable {s : SchedulerHandler} {func : Function} {ty : FindNodeType}

/-- The node has room for the function's next pod. -/
def HasRoom (s : SchedulerHandler) (func : Function) (ty : FindNodeType) (nr : NodeResources)
    (n : String) : Prop :=
  ∃ req, s.reqOn func ty nr n = .ok req ∧ nr.Fits req (ty != .resume)

/-- The first pass returns a candidate with room, or the empty plans of candidates. -/
theorem scanNodes_plan {cands l : List String} {plans : BTreeMap String EvictionPlan}
    {r : (String × NodeResources) ⊕ BTreeMap String EvictionPlan} (hl : ∀ n ∈ l, n ∈ cands)
    (hplans : ∀ (n : String) plan, plans[n]? = some plan →
      PlanOn s func cands s.idlePods.oldestFirst n plan)
    (h : s.scanNodes func ty l plans = .ok r) :
    (∀ n nr, r = .inl (n, nr) →
      n ∈ cands ∧ (∃ node, s.nodes[n]? = some node ∧ nr = node.available) ∧
        s.HasRoom func ty nr n) ∧
    ∀ plans', r = .inr plans' → ∀ (n : String) plan, plans'[n]? = some plan →
      PlanOn s func cands s.idlePods.oldestFirst n plan := by
  induction l generalizing plans with
  | nil =>
    obtain rfl := Except.ok.inj h
    refine ⟨fun _ _ hr => ?_, fun _ hr => Sum.inr.inj hr ▸ hplans⟩
    cases hr
  | cons m l ih =>
    have hl' : ∀ n ∈ l, n ∈ cands := fun n hn => hl n (List.mem_cons_of_mem m hn)
    have hm : m ∈ cands := hl m List.mem_cons_self
    unfold scanNodes at h
    rcases hnode : s.nodes[m]? with _ | node
    · rw [hnode] at h
      cases h
    · simp only [hnode] at h
      split at h
      next => exact ih hl' hplans h
      next =>
        obtain ⟨req, hreq, h⟩ := Except.bind_eq_ok.mp h
        obtain ⟨state, hstate, h⟩ := Except.bind_eq_ok.mp h
        split at h
        next hok =>
          obtain rfl := Except.ok.inj h
          constructor
          · intro n nr hr
            obtain ⟨rfl, rfl⟩ := Prod.mk.inj (Sum.inl.inj hr)
            exact ⟨hm, ⟨node, hnode, rfl⟩, req, hreq, state, hstate, hok⟩
          · intro _ hr
            cases hr
        next =>
          refine ih hl' (fun n plan hn => ?_) h
          rw [BTreeMap.get_insert] at hn
          split at hn
          next heq =>
            obtain rfl := Option.some.inj hn
            rw [heq]
            exact ⟨hm, node, hnode, [], PlanFor.nil s m node.available,
              fun _ hk => absurd hk List.not_mem_nil, fun _ hw => absurd hw List.not_mem_nil⟩
          next => exact hplans n plan hn

/-- **The second pass.** Every plan stays a plan of its node while pods join any of them, and the
one that is returned has room. -/
theorem scanIdle_plan {cands l miss : List String} {plans : BTreeMap String EvictionPlan}
    {found : Option (String × EvictionPlan)} (hl : l.Nodup) (hpool : ∀ k ∈ l, k ∈ s.idlePods)
    (htracked : ∀ k ∈ l, ∃ w, s.pods[k]? = some w)
    (hplans : ∀ (n : String) plan, plans[n]? = some plan → PlanOn s func cands l n plan)
    (h : s.scanIdle func ty l plans = .ok (miss, found)) :
    miss = [] ∧ ∀ n plan, found = some (n, plan) →
      PlanOn s func cands [] n plan ∧ s.HasRoom func ty plan.nr n := by
  induction l generalizing plans with
  | nil =>
    obtain ⟨rfl, rfl⟩ := Prod.mk.inj (Except.ok.inj h)
    exact ⟨rfl, fun _ _ hf => (nomatch hf)⟩
  | cons k l ih =>
    obtain ⟨hkl, hl'⟩ := List.nodup_cons.mp hl
    have hsub : ∀ a ∈ l, a ∈ k :: l := fun a ha => List.mem_cons_of_mem k ha
    have hplans' : ∀ (n : String) plan, plans[n]? = some plan → PlanOn s func cands l n plan :=
      fun n plan hn => (hplans n plan hn).mono hsub
    have ih' := fun {plans} => @ih plans hl' (fun a ha => hpool a (hsub a ha))
      (fun a ha => htracked a (hsub a ha))
    obtain ⟨w, hk⟩ := htracked k List.mem_cons_self
    unfold scanIdle at h
    simp only [hk] at h
    split at h
    next => exact ih' hplans' h
    next hfunc =>
      rcases hn : plans[w.pod.nodename]? with _ | plan
      · rw [hn] at h
        exact ih' hplans' h
      · simp only [hn] at h
        obtain ⟨allowed, hallowed, h⟩ := Except.bind_eq_ok.mp h
        split at h
        next hyes =>
          obtain ⟨nr, hadd, h⟩ := Except.bind_eq_ok.mp h
          obtain ⟨req, hreq, h⟩ := Except.bind_eq_ok.mp h
          obtain ⟨state, hstate, h⟩ := Except.bind_eq_ok.mp h
          -- the plan of the pod's node, with the pod
          have hnew : PlanOn s func cands l w.pod.nodename ⟨nr, plan.workids ++ [w]⟩ := by
            obtain ⟨hc, node, hnode, keys, hplan, hkeys, hother⟩ := hplans _ plan hn
            have hfresh : k ∉ keys := fun hmem => hkeys k hmem List.mem_cons_self
            refine ⟨hc, node, hnode, keys ++ [k],
              hplan.snoc hk hfresh (hpool k List.mem_cons_self) rfl (hyes ▸ hallowed) hadd, ?_, ?_⟩
            · intro a ha hmem
              rcases List.mem_append.mp ha with ha | ha
              · exact hkeys a ha (hsub a hmem)
              · exact hkl (List.mem_singleton.mp ha ▸ hmem)
            · intro v hv
              rcases List.mem_append.mp hv with hv | hv
              · exact hother v hv
              · rw [List.mem_singleton.mp hv]
                simpa using hfunc
          split at h
          next hok =>
            obtain ⟨rfl, rfl⟩ := Prod.mk.inj (Except.ok.inj h)
            refine ⟨rfl, fun n plan' hf => ?_⟩
            obtain ⟨rfl, rfl⟩ := Prod.mk.inj (Option.some.inj hf)
            exact ⟨hnew.mono fun _ ha => absurd ha List.not_mem_nil, req, hreq, state, hstate, hok⟩
          next =>
            refine ih' (fun n plan' hn' => ?_) h
            rw [BTreeMap.get_insert] at hn'
            split at hn'
            next heq =>
              obtain rfl := Option.some.inj hn'
              rw [heq]
              exact hnew
            next => exact hplans' n plan' hn'
        next => exact ih' hplans' h

/-- The pass over one node. -/
theorem scanFree_plan {l miss keys : List String} {n : String} {req : Resources} {b : Bool}
    {ws ws' : List WorkerPod} {available nr nr' : NodeResources} (hl : l.Nodup)
    (hpool : ∀ k ∈ l, k ∈ s.idlePods) (htracked : ∀ k ∈ l, ∃ w, s.pods[k]? = some w)
    (hplan : PlanFor s n available nr keys ws) (hkeys : ∀ k ∈ keys, k ∉ l)
    (hinferx : ∀ w ∈ ws, w.pod.nvidiaRuntime = false)
    (h : s.scanFree n req b l ws nr = .ok (miss, ws', nr')) :
    miss = [] ∧ (∃ keys', PlanFor s n available nr' keys' ws') ∧
      ∀ w ∈ ws', w.pod.nvidiaRuntime = false := by
  induction l generalizing keys ws nr with
  | nil =>
    obtain ⟨rfl, hp⟩ := Prod.mk.inj (Except.ok.inj h)
    obtain ⟨rfl, rfl⟩ := Prod.mk.inj hp
    exact ⟨rfl, ⟨keys, hplan⟩, hinferx⟩
  | cons k l ih =>
    obtain ⟨hkl, hl'⟩ := List.nodup_cons.mp hl
    have hsub : ∀ a ∈ l, a ∈ k :: l := fun a ha => List.mem_cons_of_mem k ha
    have ih' := fun {keys ws nr} => @ih keys ws nr hl' (fun a ha => hpool a (hsub a ha))
      (fun a ha => htracked a (hsub a ha))
    have hkeys' : ∀ a ∈ keys, a ∉ l := fun a ha hmem => hkeys a ha (hsub a hmem)
    obtain ⟨w, hk⟩ := htracked k List.mem_cons_self
    unfold scanFree at h
    simp only [hk] at h
    split at h
    next => exact ih' hplan hkeys' hinferx h
    next hhere =>
      obtain ⟨hnode, hruntime⟩ : w.pod.nodename = n ∧ w.pod.nvidiaRuntime = false := by
        simpa using hhere
      obtain ⟨allowed, hallowed, h⟩ := Except.bind_eq_ok.mp h
      split at h
      next hyes =>
        obtain ⟨nr₁, hadd, h⟩ := Except.bind_eq_ok.mp h
        obtain ⟨state, -, h⟩ := Except.bind_eq_ok.mp h
        have hnew := hplan.snoc hk (fun hmem => hkeys k hmem List.mem_cons_self)
          (hpool k List.mem_cons_self) hnode (hyes ▸ hallowed) hadd
        have hinferx' : ∀ v ∈ ws ++ [w], v.pod.nvidiaRuntime = false := by
          intro v hv
          rcases List.mem_append.mp hv with hv | hv
          · exact hinferx v hv
          · rw [List.mem_singleton.mp hv]
            exact hruntime
        split at h
        next =>
          obtain ⟨rfl, hp⟩ := Prod.mk.inj (Except.ok.inj h)
          obtain ⟨rfl, rfl⟩ := Prod.mk.inj hp
          exact ⟨rfl, ⟨_, hnew⟩, hinferx'⟩
        next =>
          refine ih' hnew (fun a ha hmem => ?_) hinferx' h
          rcases List.mem_append.mp ha with ha | ha
          · exact hkeys' a ha hmem
          · exact hkl (List.mem_singleton.mp ha ▸ hmem)
      next => exact ih' hplan hkeys' hinferx h

end SchedulerHandler

/-- In a pool of idle pods every key has its pod. -/
theorem IdlePool.tracked {s : SchedulerHandler} (h : IdlePool s) :
    ∀ k ∈ s.idlePods.oldestFirst, ∃ w, s.pods[k]? = some w := fun k hk => by
  obtain ⟨w, hw, -⟩ := (h k).mp (LruCache.mem_oldestFirst.mp hk)
  exact ⟨w, hw⟩

theorem findNode4Pod_plan {s : SchedulerHandler} (hs : IdlePool s) (func : Function)
    (ty : FindNodeType) (cands : List String) :
    (findNode4Pod func ty cands).wp
      (fun r t => t = s ∧ PlanOn s func cands [] r.1 ⟨r.2.2, r.2.1⟩ ∧ s.HasRoom func ty r.2.2 r.1)
      (fun _ _ => True) (fun _ => True) s := by
  unfold findNode4Pod
  rw [wp_bind, wp_get, wp_bind]
  refine wp_liftFault.mpr ⟨fun r hr => ?_, fun _ _ => trivial⟩
  have hscan := scanNodes_plan (fun _ hn => hn) (fun n plan hn => by simp at hn) hr
  rcases r with ⟨n, nr⟩ | plans
  · obtain ⟨hn, ⟨node, hnode, rfl⟩, hroom⟩ := hscan.1 n nr rfl
    exact ⟨rfl, ⟨hn, node, hnode, [], PlanFor.nil s n _, fun _ hk => absurd hk List.not_mem_nil,
      fun _ hw => absurd hw List.not_mem_nil⟩, hroom⟩
  · simp only
    rw [wp_bind]
    refine wp_liftFault.mpr ⟨fun ⟨miss, found⟩ hidle => ?_, fun _ _ => trivial⟩
    obtain ⟨rfl, hfound⟩ := scanIdle_plan s.idlePods.nodup_oldestFirst
      (fun k hk => LruCache.mem_oldestFirst.mp hk) hs.tracked (hscan.2 plans rfl) hidle
    rw [wp_bind, wp_modify]
    rcases found with _ | ⟨n, plan⟩
    · trivial
    · exact ⟨rfl, hfound n plan rfl⟩

theorem tryFreeResources_plan {s : SchedulerHandler} (hs : IdlePool s) (n funcId : String)
    (available : NodeResources) (req : Resources) (b : Bool) :
    (tryFreeResources n funcId available req b).wp
      (fun r t => t = s ∧ (∃ keys, PlanFor s n available r.2 keys r.1) ∧ r.2.Fits req b ∧
        ∀ w ∈ r.1, w.pod.nvidiaRuntime = false)
      (fun _ _ => True) (fun _ => True) s := by
  unfold tryFreeResources
  rw [wp_bind, wp_get, wp_bind]
  refine wp_liftFault.mpr ⟨fun ⟨miss, ws, nr⟩ hscan => ?_, fun _ _ => trivial⟩
  obtain ⟨rfl, hplan, hinferx⟩ := scanFree_plan s.idlePods.nodup_oldestFirst
    (fun k hk => LruCache.mem_oldestFirst.mp hk) hs.tracked (PlanFor.nil s n available)
    (fun _ hk => absurd hk List.not_mem_nil) (fun _ hw => absurd hw List.not_mem_nil) hscan
  simp only [wp_bind, wp_modify]
  refine wp_liftFault.mpr ⟨fun state hstate => ?_, fun _ _ => trivial⟩
  split
  next hok => exact ⟨rfl, hplan, ⟨state, hstate, hok⟩, hinferx⟩
  next => trivial

/-- What the two searches for room return. -/
structure EvictionsPlanned (s : SchedulerHandler) : Prop where
  /-- a candidate node, and idle pods of other functions on it, after which it has room -/
  findNode : ∀ func ty cands n ws nr t, findNode4Pod func ty cands s = .ok (n, ws, nr) t →
    n ∈ cands ∧
    (∃ node keys, s.nodes[n]? = some node ∧ PlanFor s n node.available nr keys ws) ∧
    (∀ w ∈ ws, s.stateOf w = .idle ∧ w.pod.state = .ready ∧ w.pod.funcKey ≠ func.id) ∧
    s.HasRoom func ty nr n
  /-- idle pods of the node that do not run on the plain NVIDIA runtime, after which it has room -/
  tryFree : ∀ n funcId available req b ws nr t,
    tryFreeResources n funcId available req b s = .ok (ws, nr) t →
    (∃ keys, PlanFor s n available nr keys ws) ∧
    (∀ w ∈ ws, s.stateOf w = .idle ∧ w.pod.state = .ready ∧ w.pod.nvidiaRuntime = false) ∧
    nr.Fits req b

/-- **What is evicted.** While the pool holds the idle pods, the searches return distinct idle pods
of the node, whose amounts the node gets, with room for the request after that. Every function that
loses pods keeps the minimum of replicas of the policy that the last of them carries. -/
theorem evictionsPlanned {s : SchedulerHandler} (hs : IdlePool s) : EvictionsPlanned s where
  findNode := by
    intro func ty cands n ws nr t hrun
    have h := findNode4Pod_plan hs func ty cands
    unfold wp at h
    rw [hrun] at h
    obtain ⟨-, ⟨hn, node, hnode, keys, hplan, -, hother⟩, hroom⟩ := h
    refine ⟨hn, ⟨node, keys, hnode, hplan⟩, fun w hw => ?_, hroom⟩
    obtain ⟨hidle, hready⟩ := hplan.idle hs hw
    exact ⟨hidle, hready, hother w hw⟩
  tryFree := by
    intro n funcId available req b ws nr t hrun
    have h := tryFreeResources_plan hs n funcId available req b
    unfold wp at h
    rw [hrun] at h
    obtain ⟨-, ⟨keys, hplan⟩, hfits, hinferx⟩ := h
    refine ⟨⟨keys, hplan⟩, fun w hw => ?_, hfits⟩
    obtain ⟨hidle, hready⟩ := hplan.idle hs hw
    exact ⟨hidle, hready, hinferx w hw⟩

/-! ### Runs -/

/-- An idle pod of `acme/prod/llama/1` on `node1`. -/
def idlePod : WorkerPod where
  ref := 0
  pod :=
    { tenant := "acme"
      nameSpace := "prod"
      funcname := "llama"
      fprevision := 1
      id := "7"
      nodename := "node1"
      allocResources := { memory := 1024 }
      state := .ready }

/-- A scheduler with that pod. The policy that its function refers to has since been told to keep
one replica. -/
def oneIdle : SchedulerHandler where
  funcpolicy := (∅ : BTreeMap String FuncPolicySpec).insert "acme/prod/one" { minReplica := 1 }
  pods := (∅ : BTreeMap String WorkerPod).insert "acme/prod/llama/1/7" idlePod
  funcs := (∅ : BTreeMap String FuncStatus).insert "acme/prod/llama/1"
    { func := { sizedFunc 1024 0 with
        policy := .link { objType := "funcpolicy", nameSpace := "prod", name := "one" } }
      pods := (∅ : BTreeMap String WorkerPod).insert "acme/prod/llama/1/7" idlePod }
  idlePods := LruCache.unbounded.put "acme/prod/llama/1/7"
  workers := fun _ => { state := .idle }

theorem idlePool_oneIdle : IdlePool oneIdle := by
  have hpods : ∀ k : String, oneIdle.pods[k]? = if k = "acme/prod/llama/1/7" then some idlePod
      else none := by
    intro k
    unfold oneIdle
    rw [BTreeMap.get_insert]
    split
    next => rfl
    next => simp
  intro k
  show k ∈ LruCache.unbounded.put "acme/prod/llama/1/7" ↔ _
  rw [LruCache.mem_put, hpods k]
  constructor
  · rintro (rfl | h)
    · exact ⟨idlePod, if_pos rfl, rfl, rfl⟩
    · exact absurd h (LruCache.not_mem_unbounded k)
  · rintro ⟨w, hw, -⟩
    split at hw
    next heq => exact .inl heq
    next => cases hw

theorem evictionsPlanned_oneIdle : EvictionsPlanned oneIdle := evictionsPlanned idlePool_oneIdle

/-- What a procedure returns, if it does. -/
def returned {α : Type} : Outcome Error Panic SchedulerHandler α → Option α
  | .ok a _ => some a
  | .err _ _ => none
  | .panic _ => none

/-- A snapshot of a function may take the place of its own idle pod, which is held to the policy
that it was started with and not to that of the function by now. -/
theorem tryFreeResources_own :
    (¬ ∀ (s : SchedulerHandler) n funcId available req b ws nr t,
      IdlePool s → tryFreeResources n funcId available req b s = .ok (ws, nr) t →
      ∀ w ∈ ws, w.pod.funcKey ≠ funcId) ∧
    ¬ ∀ (s : SchedulerHandler) n funcId available req b ws nr t,
      IdlePool s → tryFreeResources n funcId available req b s = .ok (ws, nr) t →
      ∀ w ∈ ws, ∀ status, s.funcs[w.pod.funcKey]? = some status →
        (s.policyOf status.func).minReplica
          ≤ s.readyPodCount w.pod.funcKey - evictedOf w.pod.funcKey ws := by
  have hrun : ∃ nr t, tryFreeResources "node1" "acme/prod/llama/1" {} { memory := 1024 } true oneIdle
      = .ok ([idlePod], nr) t := by
    have hreturned : (returned (tryFreeResources "node1" "acme/prod/llama/1" {} { memory := 1024 } true
        oneIdle)).any (fun r => decide (r.1 = [idlePod])) = true := by decide +kernel
    rcases hr : tryFreeResources "node1" "acme/prod/llama/1" {} { memory := 1024 } true oneIdle with
      ⟨⟨ws, nr⟩, t⟩ | _ | _
    · rw [hr] at hreturned
      obtain rfl : ws = [idlePod] := of_decide_eq_true hreturned
      exact ⟨nr, t, rfl⟩
    · rw [hr] at hreturned
      cases hreturned
    · rw [hr] at hreturned
      cases hreturned
  obtain ⟨nr, t, hrun⟩ := hrun
  constructor
  · intro h
    exact h oneIdle _ _ _ _ _ _ nr t idlePool_oneIdle hrun idlePod List.mem_cons_self (by decide +kernel)
  · intro h
    exact absurd (h oneIdle _ _ _ _ _ _ nr t idlePool_oneIdle hrun idlePod List.mem_cons_self _ rfl)
      (by decide +kernel)

end Inferx
