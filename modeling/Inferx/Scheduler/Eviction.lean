import Inferx.Scheduler.Quiet

/-!
# What the search for room returns

The search goes through the idle pool once and collects pods to evict. They are
distinct tracked pods of one node and all in the pool, so that the evictions
that follow find every one of them there. The only trace of the search itself
is that keys without a pod are gone from the pool.
-/

namespace Inferx

open Proc SchedulerHandler

/-- The pods `ws` can be evicted from the node `n`. -/
structure Evictable (s : SchedulerHandler) (n : String) (ws : List WorkerPod) : Prop where
  /-- they are distinct -/
  nodup : (ws.map fun w => w.pod.podKey).Nodup
  /-- they are tracked -/
  tracked : ∀ w ∈ ws, s.pods[w.pod.podKey]? = some w
  /-- they are in the idle pool -/
  idle : ∀ w ∈ ws, w.pod.podKey ∈ s.idlePods
  /-- they are on the node -/
  node : ∀ w ∈ ws, w.pod.nodename = n

namespace Evictable

variable {s : SchedulerHandler} {n : String} {ws : List WorkerPod} {w : WorkerPod}

theorem nil (s : SchedulerHandler) (n : String) : Evictable s n [] where
  nodup := List.nodup_nil
  tracked _ h := nomatch h
  idle _ h := nomatch h
  node _ h := nomatch h

/-- One more pod. -/
theorem snoc (h : Evictable s n ws) (hw : s.pods[w.pod.podKey]? = some w)
    (hidle : w.pod.podKey ∈ s.idlePods) (hn : w.pod.nodename = n)
    (hnew : ∀ v ∈ ws, v.pod.podKey ≠ w.pod.podKey) : Evictable s n (ws ++ [w]) where
  nodup := by
    rw [List.map_append, List.map_singleton, List.nodup_append]
    refine ⟨h.nodup, List.nodup_singleton _, ?_⟩
    intro a ha b hb
    obtain ⟨v, hv, rfl⟩ := List.mem_map.mp ha
    rw [List.mem_singleton.mp hb]
    exact hnew v hv
  tracked v hv := by
    rcases List.mem_append.mp hv with hv | hv
    · exact h.tracked v hv
    · rw [List.mem_singleton.mp hv]
      exact hw
  idle v hv := by
    rcases List.mem_append.mp hv with hv | hv
    · exact h.idle v hv
    · rw [List.mem_singleton.mp hv]
      exact hidle
  node v hv := by
    rcases List.mem_append.mp hv with hv | hv
    · exact h.node v hv
    · rw [List.mem_singleton.mp hv]
      exact hn

end Evictable

/-- A plan of the scan with the keys `l` still to come: its pods are behind. -/
def PlanOk (s : SchedulerHandler) (funcId : String) (l : List String) (n : String)
    (ws : List WorkerPod) : Prop :=
  Evictable s n ws ∧ ∀ w ∈ ws, w.pod.funcKey ≠ funcId ∧ w.pod.podKey ∉ l

namespace SchedulerHandler

variable {s : SchedulerHandler} {func : Function} {t : FindNodeType}

/-- The plans of the first pass are empty. -/
theorem scanNodes_plans {l : List String} {plans plans' : BTreeMap String EvictionPlan}
    (hplans : ∀ (n : String) (plan : EvictionPlan), plans[n]? = some plan → plan.workids = [])
    (h : s.scanNodes func t l plans = .ok (.inr plans')) :
    ∀ (n : String) (plan : EvictionPlan), plans'[n]? = some plan → plan.workids = [] := by
  induction l generalizing plans with
  | nil =>
    obtain rfl := Sum.inr.inj (Except.ok.inj h)
    exact hplans
  | cons m l ih =>
    unfold scanNodes at h
    rcases hm : s.nodes[m]? with _ | ns
    · rw [hm] at h
      cases h
    · simp only [hm] at h
      split at h
      next => exact ih hplans h
      next =>
        obtain ⟨req, -, h⟩ := Except.bind_eq_ok.mp h
        obtain ⟨state, -, h⟩ := Except.bind_eq_ok.mp h
        split at h
        next => cases Except.ok.inj h
        next =>
          refine ih (fun n plan hn => ?_) h
          rw [BTreeMap.get_insert] at hn
          split at hn
          next =>
            obtain rfl := Option.some.inj hn
            rfl
          next => exact hplans n plan hn

theorem scanIdle_spec {l miss : List String} {plans : BTreeMap String EvictionPlan}
    {found : Option (String × EvictionPlan)} (hs : s.index.Keyed) (hl : l.Nodup)
    (hidle : ∀ k ∈ l, k ∈ s.idlePods)
    (hplans : ∀ (n : String) (plan : EvictionPlan), plans[n]? = some plan →
      PlanOk s func.id l n plan.workids)
    (h : s.scanIdle func t l plans = .ok (miss, found)) :
    (∀ k ∈ miss, s.pods[k]? = none) ∧
      ∀ n plan, found = some (n, plan) → PlanOk s func.id [] n plan.workids := by
  induction l generalizing plans miss with
  | nil =>
    obtain ⟨rfl, rfl⟩ := Prod.mk.inj (Except.ok.inj h)
    exact ⟨fun _ hk => (nomatch hk), fun _ _ hf => (nomatch hf)⟩
  | cons k l ih =>
    obtain ⟨hkl, hl'⟩ := List.nodup_cons.mp hl
    have hidle' : ∀ a ∈ l, a ∈ s.idlePods := fun a ha => hidle a (List.mem_cons_of_mem k ha)
    have hplans' : ∀ (n : String) (plan : EvictionPlan), plans[n]? = some plan →
        PlanOk s func.id l n plan.workids := by
      intro n plan hn
      obtain ⟨he, hw⟩ := hplans n plan hn
      exact ⟨he, fun w hws => ⟨(hw w hws).1, fun hmem => (hw w hws).2 (List.mem_cons_of_mem k hmem)⟩⟩
    unfold scanIdle at h
    rcases hk : s.pods[k]? with _ | w
    · rw [hk] at h
      obtain ⟨⟨miss', found'⟩, hrec, h⟩ := Except.bind_eq_ok.mp h
      obtain ⟨rfl, rfl⟩ := Prod.mk.inj (Except.ok.inj h)
      obtain ⟨hmiss, hfound⟩ := ih hl' hidle' hplans' hrec
      refine ⟨fun a ha => ?_, hfound⟩
      rcases List.mem_cons.mp ha with rfl | ha
      · exact hk
      · exact hmiss a ha
    · simp only [hk] at h
      have hkey : w.pod.podKey = k := hs.key k w hk
      split at h
      next => exact ih hl' hidle' hplans' h
      next hfunc =>
        rcases hn : plans[w.pod.nodename]? with _ | plan
        · rw [hn] at h
          exact ih hl' hidle' hplans' h
        · simp only [hn] at h
          obtain ⟨allowed, -, h⟩ := Except.bind_eq_ok.mp h
          split at h
          next =>
            obtain ⟨nr, -, h⟩ := Except.bind_eq_ok.mp h
            obtain ⟨req, -, h⟩ := Except.bind_eq_ok.mp h
            obtain ⟨state, -, h⟩ := Except.bind_eq_ok.mp h
            -- the plan of the pod's node, with the pod
            have hnew : PlanOk s func.id l w.pod.nodename (plan.workids ++ [w]) := by
              obtain ⟨he, hw⟩ := hplans w.pod.nodename plan hn
              constructor
              · refine he.snoc (hkey ▸ hk) (hkey ▸ hidle k (List.mem_cons_self ..)) rfl ?_
                intro v hv hvw
                exact (hw v hv).2 (by rw [hvw, hkey]; exact List.mem_cons_self ..)
              · intro v hv
                rcases List.mem_append.mp hv with hv | hv
                · exact ⟨(hw v hv).1, fun hmem => (hw v hv).2 (List.mem_cons_of_mem k hmem)⟩
                · rw [List.mem_singleton.mp hv, hkey]
                  exact ⟨by simpa using hfunc, hkl⟩
            split at h
            next =>
              obtain ⟨rfl, rfl⟩ := Prod.mk.inj (Except.ok.inj h)
              refine ⟨fun _ ha => (nomatch ha), fun n plan' hf => ?_⟩
              obtain ⟨rfl, rfl⟩ := Prod.mk.inj (Option.some.inj hf)
              exact ⟨hnew.1, fun v hv => ⟨(hnew.2 v hv).1, List.not_mem_nil⟩⟩
            next =>
              refine ih hl' hidle' (fun n plan' hn' => ?_) h
              rw [BTreeMap.get_insert] at hn'
              split at hn'
              next hnw =>
                obtain rfl := Option.some.inj hn'
                rw [hnw]
                exact hnew
              next => exact hplans' n plan' hn'
          next => exact ih hl' hidle' hplans' h

theorem scanFree_spec {l miss : List String} {n : String} {req : Resources} {b : Bool}
    {ws ws' : List WorkerPod} {available available' : NodeResources} (hs : s.index.Keyed)
    (hl : l.Nodup) (hidle : ∀ k ∈ l, k ∈ s.idlePods)
    (hws : Evictable s n ws ∧ ∀ w ∈ ws, w.pod.podKey ∉ l)
    (h : s.scanFree n req b l ws available = .ok (miss, ws', available')) :
    (∀ k ∈ miss, s.pods[k]? = none) ∧ Evictable s n ws' := by
  induction l generalizing ws available miss with
  | nil =>
    obtain ⟨rfl, hp⟩ := Prod.mk.inj (Except.ok.inj h)
    obtain ⟨rfl, rfl⟩ := Prod.mk.inj hp
    exact ⟨fun _ hk => (nomatch hk), hws.1⟩
  | cons k l ih =>
    obtain ⟨hkl, hl'⟩ := List.nodup_cons.mp hl
    have hidle' : ∀ a ∈ l, a ∈ s.idlePods := fun a ha => hidle a (List.mem_cons_of_mem k ha)
    have hws' : Evictable s n ws ∧ ∀ w ∈ ws, w.pod.podKey ∉ l :=
      ⟨hws.1, fun w hw hmem => hws.2 w hw (List.mem_cons_of_mem k hmem)⟩
    unfold scanFree at h
    rcases hk : s.pods[k]? with _ | w
    · rw [hk] at h
      obtain ⟨⟨miss', ws₁, av₁⟩, hrec, h⟩ := Except.bind_eq_ok.mp h
      obtain ⟨rfl, hp⟩ := Prod.mk.inj (Except.ok.inj h)
      obtain ⟨rfl, rfl⟩ := Prod.mk.inj hp
      obtain ⟨hmiss, hfound⟩ := ih hl' hidle' hws' hrec
      refine ⟨fun a ha => ?_, hfound⟩
      rcases List.mem_cons.mp ha with rfl | ha
      · exact hk
      · exact hmiss a ha
    · simp only [hk] at h
      have hkey : w.pod.podKey = k := hs.key k w hk
      split at h
      next => exact ih hl' hidle' hws' h
      next hnode =>
        obtain ⟨allowed, -, h⟩ := Except.bind_eq_ok.mp h
        split at h
        next =>
          obtain ⟨av, -, h⟩ := Except.bind_eq_ok.mp h
          obtain ⟨state, -, h⟩ := Except.bind_eq_ok.mp h
          have hnew : Evictable s n (ws ++ [w]) ∧ ∀ v ∈ ws ++ [w], v.pod.podKey ∉ l := by
            constructor
            · refine hws.1.snoc (hkey ▸ hk) (hkey ▸ hidle k (List.mem_cons_self ..)) ?_ ?_
              · by_contra hne
                simp [hne] at hnode
              · intro v hv hvw
                exact hws.2 v hv (by rw [hvw, hkey]; exact List.mem_cons_self ..)
            · intro v hv
              rcases List.mem_append.mp hv with hv | hv
              · exact hws'.2 v hv
              · rw [List.mem_singleton.mp hv, hkey]
                exact hkl
          split at h
          next =>
            obtain ⟨rfl, hp⟩ := Prod.mk.inj (Except.ok.inj h)
            obtain ⟨rfl, rfl⟩ := Prod.mk.inj hp
            exact ⟨fun _ ha => (nomatch ha), hnew.1⟩
          next => exact ih hl' hidle' hnew h
        next => exact ih hl' hidle' hws' h

/-! ## Dropping keys without a pod -/

theorem lives_popMissing {A : String → Act → Prop} (hA : ∀ k, A k .dropMissing) (miss : List String)
    (s : SchedulerHandler) (hmiss : ∀ k ∈ miss, s.pods[k]? = none) :
    Lives A s (s.popMissing miss) := by
  induction miss generalizing s with
  | nil => exact Std.Refl.refl s
  | cons k miss ih =>
    have hk : s.pods[k]? = none := hmiss k (List.mem_cons_self ..)
    have hpop : Lives A s (s.popIdle k) := by
      refine Lives.act rfl rfl (hA k) ?_ fun a ha => slot_popIdle_of_ne ha
      rw [slot_popIdle_self, slot_of_untracked hk]
      exact .dropMissing
    refine IsTrans.trans _ _ _ hpop (ih (s.popIdle k) fun a ha => ?_)
    exact hmiss a (List.mem_cons_of_mem k ha)

theorem mem_popMissing {miss : List String} {s : SchedulerHandler} {k : String}
    (hk : k ∈ s.idlePods) (hmiss : k ∉ miss) : k ∈ (s.popMissing miss).idlePods := by
  induction miss generalizing s with
  | nil => exact hk
  | cons a miss ih =>
    obtain ⟨ha, hmiss⟩ := not_or.mp (mt List.mem_cons.mpr hmiss)
    exact ih (s := s.popIdle a) (LruCache.mem_pop.mpr ⟨ha, hk⟩) hmiss

/-- What can be evicted still can after keys without a pod have been dropped. -/
theorem Evictable.popMissing {n : String} {ws : List WorkerPod} {miss : List String}
    (h : Evictable s n ws) (hmiss : ∀ k ∈ miss, s.pods[k]? = none) :
    Evictable (s.popMissing miss) n ws := by
  have hpods : (s.popMissing miss).pods = s.pods :=
    pods_of_index (index_foldl (fun s k => index_popIdle s k) miss s)
  refine ⟨h.nodup, fun w hw => ?_, fun w hw => ?_, h.node⟩
  · rw [hpods]
    exact h.tracked w hw
  · refine mem_popMissing (h.idle w hw) fun hmem => ?_
    have hnone := hmiss _ hmem
    rw [h.tracked w hw] at hnone
    cases hnone

end SchedulerHandler

/-! ## The procedures -/

/-- Acts that make room for a pod. -/
def MakesRoom (act : Act) : Prop := act = .evict ∨ act = .dropMissing

theorem findNode4Pod_spec {A : String → Act → Prop} (hA : ∀ k, A k .dropMissing) (func : Function)
    (t : FindNodeType) (nodes : List String) {s : SchedulerHandler} (hs : s.index.Sound) :
    (findNode4Pod func t nodes).wp
      (fun r s' => Lives A s s' ∧ Evictable s' r.1 r.2.1 ∧ ∀ w ∈ r.2.1, w.pod.funcKey ≠ func.id)
      (fun _ s' => Lives A s s') Calm s := by
  unfold findNode4Pod
  rw [wp_bind, wp_get, wp_bind]
  refine wp_liftFault.mpr ⟨fun r hr => ?_, fun f _ => calm_fault f⟩
  rcases r with ⟨n, nr⟩ | plans
  · exact ⟨Std.Refl.refl s, Evictable.nil s n, fun _ hw => (nomatch hw)⟩
  · simp only
    rw [wp_bind]
    refine wp_liftFault.mpr ⟨fun ⟨miss, found⟩ hscan => ?_, fun f _ => calm_fault f⟩
    have hplans : ∀ (n : String) (plan : EvictionPlan), plans[n]? = some plan →
        PlanOk s func.id s.idlePods.oldestFirst n plan.workids := by
      intro n plan hn
      rw [scanNodes_plans (fun n plan hn => by simp at hn) hr n plan hn]
      exact ⟨Evictable.nil s n, fun _ hw => (nomatch hw)⟩
    obtain ⟨hmiss, hfound⟩ := scanIdle_spec hs.toKeyed s.idlePods.nodup_oldestFirst
      (fun k hk => LruCache.mem_oldestFirst.mp hk) hplans hscan
    have hlives : Lives A s (s.popMissing miss) := lives_popMissing hA miss s hmiss
    rw [wp_bind, wp_modify]
    rcases found with _ | ⟨n, plan⟩
    · exact hlives
    · obtain ⟨he, hfunc⟩ := hfound n plan rfl
      exact ⟨hlives, Evictable.popMissing he hmiss, fun w hw => (hfunc w hw).1⟩

theorem tryFreeResources_spec {A : String → Act → Prop} (hA : ∀ k, A k .dropMissing)
    (n funcId : String) (available : NodeResources) (req : Resources) (b : Bool)
    {s : SchedulerHandler} (hs : s.index.Sound) :
    (tryFreeResources n funcId available req b).wp
      (fun r s' => Lives A s s' ∧ Evictable s' n r.1) (fun _ s' => Lives A s s') Calm s := by
  unfold tryFreeResources
  rw [wp_bind, wp_get, wp_bind]
  refine wp_liftFault.mpr ⟨fun ⟨miss, ws, av⟩ hscan => ?_, fun f _ => calm_fault f⟩
  obtain ⟨hmiss, he⟩ := scanFree_spec hs.toKeyed s.idlePods.nodup_oldestFirst
    (fun k hk => LruCache.mem_oldestFirst.mp hk)
    ⟨Evictable.nil s n, fun _ hw => (nomatch hw)⟩ hscan
  have hlives : Lives A s (s.popMissing miss) := lives_popMissing hA miss s hmiss
  simp only [wp_bind, wp_modify]
  refine wp_liftFault.mpr ⟨fun state _ => ?_, fun f _ => calm_fault f⟩
  split
  next => exact ⟨hlives, Evictable.popMissing he hmiss⟩
  next => exact hlives

theorem getBestNvidiaRuntimeNode_spec {A : String → Act → Prop} (hA : ∀ k, A k .dropMissing)
    (fp : Function) {s : SchedulerHandler} (hs : s.index.Sound) :
    (getBestNvidiaRuntimeNode fp).wp (fun r s' => Lives A s s' ∧ Evictable s' r.1 r.2.1)
      (fun _ s' => Lives A s s') Calm s := by
  unfold getBestNvidiaRuntimeNode
  rw [wp_bind, wp_get]
  dsimp only
  split
  next => exact Std.Refl.refl s
  next =>
    exact wp_mono (findNode4Pod_spec hA fp _ _ hs) (fun _ _ h => ⟨h.1, h.2.1⟩) (fun _ _ h => h)
      fun _ h => h

/-- The pod to resume is a standby pod of the function, and is not evicted. -/
theorem getBestResumeWorker_spec {A : String → Act → Prop} (hA : ∀ k, A k .dropMissing)
    (fp : Function) {s : SchedulerHandler} (hs : s.index.Sound) :
    (getBestResumeWorker fp).wp
      (fun r s' => Lives A s s' ∧ Evictable s' r.1.pod.nodename r.2.1 ∧
        (∀ w ∈ r.2.1, w.pod.funcKey ≠ fp.id) ∧ r.1 ∈ s.getFuncPodsByKey fp.id ∧
        r.1.pod.state = .standby ∧ s.stateOf r.1 = .standby)
      (fun _ s' => Lives A s s') Calm s := by
  unfold getBestResumeWorker
  rw [wp_bind, wp_get]
  dsimp only
  split
  next => exact Std.Refl.refl s
  next =>
    split
    next => exact Std.Refl.refl s
    next =>
      rw [wp_bind]
      refine wp_mono (findNode4Pod_spec hA fp _ _ hs) (fun r s' h => ?_) (fun _ _ h => h)
        fun _ h => h
      obtain ⟨n, ws, nr⟩ := r
      obtain ⟨hlives, he, hfunc⟩ := h
      dsimp only
      rcases hfind : (s.getFuncPodsByKey fp.id).find? _ with _ | w
      · exact hlives
      · have hw := List.find?_some hfind
        simp only [Bool.and_eq_true, beq_iff_eq] at hw
        refine ⟨hlives, ?_, hfunc, List.mem_of_find?_eq_some hfind, hw.1.1, hw.1.2⟩
        rw [hw.2]
        exact he

end Inferx
