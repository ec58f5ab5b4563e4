import Inferx.Scheduler.Handling

/-!
# Clearing up moves pods

The handlers that change pods on the scheduler's own initiative: pods of
functions that are gone are stopped, pods of gateways that are gone are taken
back, and evictions and resumes whose RPC failed are rolled back.
-/

namespace Inferx

open Proc SchedulerHandler

/-! ## Pods of functions that are gone -/

/-- Acts of stopping the pods with a function in `F`: those on a known node are
marked, wherever they are. -/
def StopOf (ix : PodIndex) (F : String → Prop) (k : String) (act : Act) : Prop :=
  act = .mark ∧ ∃ w, ix.pods[k]? = some w ∧ F w.pod.funcKey ∧
    (ix.byNode.known w.pod.nodename).isSome

theorem podsByFunckey_spec {s : SchedulerHandler} (hs : s.index.Sound) {f : String} {w : WorkerPod}
    (hw : w ∈ s.podsByFunckey f) : s.pods[w.pod.podKey]? = some w ∧ w.pod.funcKey = f := by
  unfold podsByFunckey at hw
  have hfunc := List.all_eq_true.mp (List.all_takeWhile (l := _) (p := _)) w hw
  have hmem := (List.takeWhile_sublist _).subset hw
  obtain ⟨⟨k, v⟩, hkv, rfl⟩ := List.mem_map.mp hmem
  have htracked := BTreeMap.mem_toList.mp ((List.dropWhile_sublist _).subset hkv)
  refine ⟨?_, by simpa using hfunc⟩
  rw [show v.pod.podKey = k from hs.key k v htracked]
  exact htracked

theorem removePodsByFunckey_spec (env : Env) (f : String) {s : SchedulerHandler}
    (hs : s.index.Sound) :
    (removePodsByFunckey env f).wp (fun _ s' => Lives (StopOf s.index (· = f)) s s')
      (fun _ s' => Lives (StopOf s.index (· = f)) s s') Calm s := by
  unfold removePodsByFunckey
  rw [wp_bind, wp_get]
  dsimp only
  rw [wp_bind]
  let I : List WorkerPod → SchedulerHandler → Prop := fun l t =>
    Lives (StopOf s.index (· = f)) s t ∧ ∀ w ∈ l, s.pods[w.pod.podKey]? = some w ∧ w.pod.funcKey = f
  refine wp_mono (wp_each (I := I) ?_ _ s ⟨Std.Refl.refl s, fun w hw => podsByFunckey_spec hs hw⟩)
    (fun _ _ h => h.1) (fun _ _ h => h) fun _ h => h
  rintro w l t ⟨hlives, hl⟩
  obtain ⟨hw, hwf⟩ := hl w (List.mem_cons_self ..)
  have hl' : ∀ v ∈ l, s.pods[v.pod.podKey]? = some v ∧ v.pod.funcKey = f := fun v hv =>
    hl v (List.mem_cons_of_mem w hv)
  rw [wp_bind, wp_attempt]
  refine wp_mono (stopWorker_spec w.pod t) (fun _ t₁ h₁ => ?_) (fun _ t₁ h₁ => ?_) fun _ h => h.elim
  · obtain ⟨hlife, hnode⟩ := h₁
    have hlives₁ : Lives (StopOf s.index (· = f)) s t₁ :=
      IsTrans.trans _ _ _ hlives (Lives.of_life hlife)
    refine ⟨IsTrans.trans _ _ _ hlives₁ (lives_mark env (hlives₁.sound _ _ hs).toKeyed ?_ ?_), hl'⟩
    · rw [pods_of_index hlives₁.index]
      exact hw
    · refine ⟨rfl, w, hw, hwf, ?_⟩
      rw [← hlives.index]
      exact hnode
  · rw [h₁.1]
    exact ⟨hlives, hl'⟩

theorem processRemoveFunc_spec (env : Env) (spec : Function) {s : SchedulerHandler}
    (hs : s.index.Sound) :
    (processRemoveFunc env spec).wp (fun _ s' => Lives (StopOf s.index (· = spec.id)) s s')
      (fun _ s' => Lives (StopOf s.index (· = spec.id)) s s') Calm s := by
  unfold processRemoveFunc
  refine MovesFrom.wp_bind_of (wp_mono (removePodsByFunckey_spec env spec.id hs)
    (fun b s₁ h₁ => ⟨h₁, ?_⟩) (fun _ _ h => h) fun _ h => h)
  split
  next => exact Std.Refl.refl s₁
  next => exact (quiet_removeSnapshotByFunckey spec.id).movesPods s₁ (h₁.sound _ _ hs)

/-- The function is not known. -/
def UnknownFunc (s : SchedulerHandler) (f : String) : Prop := s.funcs.contains f = false

theorem mem_sortedNames {l : List String} {n : String} (h : n ∈ sortedNames l) : n ∈ l := by
  have hfold : ∀ (l : List String) (m : BTreeMap String Unit) (n : String),
      n ∈ l.foldl (fun m n => m.insert n ()) m → n ∈ l ∨ n ∈ m := by
    intro l
    induction l with
    | nil => exact fun m n hn => Or.inr hn
    | cons a l ih =>
      intro m n hn
      rcases ih _ n hn with hn | hn
      · exact Or.inl (List.mem_cons_of_mem a hn)
      · rw [Std.ExtTreeMap.mem_insert] at hn
        rcases hn with hn | hn
        · exact Or.inl (by rw [Std.LawfulEqCmp.eq_of_compare hn]; exact List.mem_cons_self ..)
        · exact Or.inr hn
  rcases hfold l ∅ n (Std.ExtTreeMap.mem_keys.mp h) with hn | hn
  · exact hn
  · simp at hn

theorem cleanPods_spec (env : Env) {s : SchedulerHandler} (hs : s.index.Sound) :
    (cleanPods env).wp (fun _ s' => Lives (StopOf s.index (UnknownFunc s)) s s')
      (fun _ s' => Lives (StopOf s.index (UnknownFunc s)) s s') Calm s := by
  unfold cleanPods
  rw [wp_bind, wp_get]
  dsimp only
  let I : List String → SchedulerHandler → Prop := fun l t =>
    Lives (StopOf s.index (UnknownFunc s)) s t ∧ ∀ f ∈ l, UnknownFunc s f
  refine wp_mono (wp_each (I := I) ?_ _ s ⟨Std.Refl.refl s, fun f hf => ?_⟩)
    (fun _ _ h => h.1) (fun _ _ h => h) fun _ h => h
  · rintro f l t ⟨hlives, hl⟩
    have hf : UnknownFunc s f := hl f (List.mem_cons_self ..)
    have hmono : ∀ k act, StopOf t.index (· = f) k act → StopOf s.index (UnknownFunc s) k act := by
      rintro k act ⟨hact, w, hw, hwf, hnode⟩
      rw [hlives.index] at hw hnode
      exact ⟨hact, w, hw, by rw [hwf]; exact hf, hnode⟩
    rw [wp_ignore]
    refine wp_mono (removePodsByFunckey_spec env f (hlives.sound _ _ hs)) (fun _ t₁ h₁ => ?_)
      (fun _ t₁ h₁ => ?_) fun _ h => h
    · exact ⟨IsTrans.trans _ _ _ hlives (h₁.mono hmono), fun g hg => hl g (List.mem_cons_of_mem f hg)⟩
    · exact ⟨IsTrans.trans _ _ _ hlives (h₁.mono hmono), fun g hg => hl g (List.mem_cons_of_mem f hg)⟩
  · have hmem := List.mem_filter.mp (mem_sortedNames hf)
    simpa [UnknownFunc] using hmem.2

/-! ## Gateways that are gone -/

/-- Acts of the timeout of the gateways in `gs`. -/
def TimeoutOf (gs : List ℤ) (_ : String) (act : Act) : Prop := ∃ g ∈ gs, act = .timeout g

theorem lives_releaseTimedOut (gs : List ℤ) {s : SchedulerHandler} {w : WorkerPod}
    (hs : s.index.Keyed) (hw : s.pods[w.pod.podKey]? = some w) :
    Lives (TimeoutOf gs) s (releaseTimedOut gs s w) := by
  unfold releaseTimedOut
  split
  next g hg =>
    split
    next hmem =>
      refine Lives.act (k := w.pod.podKey) rfl rfl ⟨g, hmem, rfl⟩ ?_ fun a ha => ?_
      · rw [slot_setIdle_putIdle hs hw, if_pos rfl, slot_of_tracked hw]
        exact .timeout hg
      · rw [slot_setIdle_putIdle hs hw, if_neg ha]
    next => exact Std.Refl.refl s
  next => exact Std.Refl.refl s

theorem lives_releaseAll (gs : List ℤ) (ws : List WorkerPod) {s : SchedulerHandler}
    (hs : s.index.Keyed) (hws : ∀ w ∈ ws, s.pods[w.pod.podKey]? = some w) :
    Lives (TimeoutOf gs) s (ws.foldl (releaseTimedOut gs) s) := by
  induction ws generalizing s with
  | nil => exact Std.Refl.refl s
  | cons w ws ih =>
    have hone := lives_releaseTimedOut gs hs (hws w (List.mem_cons_self ..))
    refine IsTrans.trans _ _ _ hone (ih (hone.index ▸ hs) fun v hv => ?_)
    rw [pods_of_index hone.index]
    exact hws v (List.mem_cons_of_mem w hv)

theorem lives_processGatewayTimeout (env : Env) {s : SchedulerHandler} (hs : s.index.Sound) :
    Lives (TimeoutOf (s.timeoutGateways env)) s (s.processGatewayTimeout env) := by
  unfold processGatewayTimeout
  dsimp only
  refine IsTrans.trans _ _ _ (Lives.of_life ?_) (lives_releaseAll _ _ ?_ ?_)
  · rfl
  · exact hs.toKeyed
  · intro w hw
    obtain ⟨⟨k, v⟩, hkv, rfl⟩ := List.mem_map.mp hw
    have htracked := BTreeMap.mem_toList.mp hkv
    show s.pods[v.pod.podKey]? = some v
    rw [show v.pod.podKey = k from hs.key k v htracked]
    exact htracked

/-! ## Roll-backs -/

namespace SchedulerHandler

/-- The pods being stopped, by node. -/
def stoppingOn (s : SchedulerHandler) (n : String) : Option (Finset String) :=
  s.nodes[n]?.map (·.stoppingPods)

/-- Is the pod tracked, and marked as being stopped on its node? -/
def Stopping (s : SchedulerHandler) (k : String) : Prop :=
  ∃ w stopping, s.pods[k]? = some w ∧ s.stoppingOn w.pod.nodename = some stopping ∧ k ∈ stopping

end SchedulerHandler

/-- Acts of the roll-back of the evictions of `keys`. -/
def RestoreOf (s : SchedulerHandler) (keys : List String) (k : String) (act : Act) : Prop :=
  act = .restore ∧ k ∈ keys ∧ s.Stopping k

theorem lives_restoreTerminated {A : String → Act → Prop} {s : SchedulerHandler} {k : String}
    (hs : s.index.Sound) (hA : s.Stopping k → A k .restore) :
    Lives A s (s.restoreTerminated k) ∧
      ∀ a, (s.restoreTerminated k).Stopping a → s.Stopping a := by
  unfold restoreTerminated
  rcases hw : s.pods[k]? with _ | w
  · exact ⟨Std.Refl.refl s, fun _ h => h⟩
  · dsimp only
    rcases hn : s.nodes[w.pod.nodename]? with _ | ns
    · exact ⟨Std.Refl.refl s, fun _ h => h⟩
    · dsimp only
      have hkey : w.pod.podKey = k := hs.key k w hw
      split
      next hmem =>
        have hstop : s.Stopping k := ⟨w, ns.stoppingPods, hw, by rw [stoppingOn, hn]; rfl, hmem⟩
        have hindex : (s.modifyNode w.pod.nodename (·.removeStoppingPod k)).index = s.index :=
          index_modifyNode fun _ => rfl
        have hfunc : ∀ s₁ : SchedulerHandler,
            (s₁.modifyFunc w.pod.funcKey (·.removeStoppingPod k)).life = s₁.life := fun s₁ =>
          life_modifyFunc fun _ => rfl
        constructor
        · refine Lives.act ((index_of_life (hfunc _)).trans hindex) rfl (hA hstop) ?_ fun a ha => ?_
          · rw [slot_of_life (hfunc _), slot_putIdle_self, setState]
            rw [slot_setCell_self (s := s.modifyNode _ _) hw]
            rw [slot_of_tracked hw]
            exact .restore
          · rw [slot_of_life (hfunc _), slot_putIdle_of_ne ha]
            exact slot_setCell_of_ne (s := s.modifyNode _ _) (hindex ▸ hs.toKeyed) hw ha
        · rintro a ⟨v, st, hv, hst, ha⟩
          have hst' : ((s.modifyNode w.pod.nodename (·.removeStoppingPod k)).stoppingOn
              v.pod.nodename) = some st := hst
          unfold stoppingOn modifyNode at hst'
          rw [BTreeMap.get_modify] at hst'
          split at hst'
          next hvn =>
            rw [hvn, hn, Option.map_some, Option.map_some] at hst'
            refine ⟨v, ns.stoppingPods, hv, by rw [stoppingOn, hvn, hn]; rfl, ?_⟩
            rw [← Option.some.inj hst'] at ha
            exact Finset.mem_of_mem_erase ha
          next => exact ⟨v, st, hv, hst', ha⟩
      next => exact ⟨Std.Refl.refl s, fun _ h => h⟩

theorem lives_restoreAll {A : String → Act → Prop} (keys : List String) {s : SchedulerHandler}
    (hs : s.index.Sound) (hA : ∀ k ∈ keys, s.Stopping k → A k .restore) :
    Lives A s (keys.foldl restoreTerminated s) := by
  induction keys generalizing s with
  | nil => exact Std.Refl.refl s
  | cons k keys ih =>
    obtain ⟨hone, hstop⟩ := lives_restoreTerminated hs (hA k (List.mem_cons_self ..))
    refine IsTrans.trans _ _ _ hone (ih (hone.sound _ _ hs) fun a ha h => ?_)
    exact hA a (List.mem_cons_of_mem k ha) (hstop a h)

theorem stopping_congr {s s' : SchedulerHandler} (hpods : s'.pods = s.pods)
    (hstop : s'.stoppingOn = s.stoppingOn) {k : String} (h : s'.Stopping k) : s.Stopping k := by
  unfold SchedulerHandler.Stopping at h ⊢
  rw [hpods, hstop] at h
  exact h

theorem stoppingOn_modifyNode {s : SchedulerHandler} {n : String} {g : NodeStatus → NodeStatus}
    (hg : ∀ ns, (g ns).stoppingPods = ns.stoppingPods) :
    (s.modifyNode n g).stoppingOn = s.stoppingOn := by
  funext m
  unfold stoppingOn modifyNode
  rw [BTreeMap.get_modify]
  split
  next => rw [Option.map_map, show (·.stoppingPods) ∘ g = NodeStatus.stoppingPods from funext hg]
  next => rfl

theorem freeResource_stoppingPods {ns ns' : NodeStatus} {r : NodeResources}
    (h : ns.freeResource r = .ok ns') : ns'.stoppingPods = ns.stoppingPods := by
  obtain ⟨a, -, ha⟩ := Except.bind_eq_ok.mp h
  obtain rfl := Except.ok.inj ha
  rfl

theorem freeNodeResource_spec (n : String) (r : NodeResources) (s : SchedulerHandler) :
    (freeNodeResource n r).wp (fun _ s' => s'.life = s.life ∧ s'.stoppingOn = s.stoppingOn)
      (fun _ _ => False) Calm s := by
  unfold freeNodeResource
  rw [wp_bind, wp_get]
  rcases hn : s.nodes[n]? with _ | ns
  · exact ⟨rfl, rfl⟩
  · rw [wp_bind]
    refine wp_liftFault.mpr ⟨fun ns' hns' => ?_, fun f _ => calm_fault f⟩
    refine ⟨life_insertNode hn (freeResource_home hns'), ?_⟩
    funext m
    show Option.map _ (s.nodes.insert n ns')[m]? = Option.map _ s.nodes[m]?
    rw [BTreeMap.get_insert]
    split
    next hm => rw [hm, hn, Option.map_some, Option.map_some, freeResource_stoppingPods hns']
    next => rfl

/-- The acts of a resume RPC that is rolled back. -/
def ResumeUndone (s : SchedulerHandler) (rpc : ResumeRpc) (k : String) (act : Act) : Prop :=
  k = rpc.podKey ∧ act = .rollback ∨ RestoreOf s rpc.terminated k act

theorem lives_rollback {A : String → Act → Prop} {s : SchedulerHandler} {w : WorkerPod}
    (hs : s.index.Keyed) (hw : s.pods[w.pod.podKey]? = some w) (hA : A w.pod.podKey .rollback) :
    Lives A s (s.setState w .standby) := by
  refine Lives.act rfl rfl hA ?_ fun a ha => slot_setCell_of_ne hs hw ha
  rw [setState, slot_setCell_self hw, slot_of_tracked hw]
  exact .rollback

theorem failOneLease_nodes (env : Env) (f : String) : Fixes (fun s => s.nodes) (failOneLease env f) := by
  refine Moves.bind Moves.get fun s => ?_
  rcases s.funcs[f]? with _ | fs
  · exact Moves.pure ()
  · dsimp only
    rcases hq : fs.leaseWorkerReqs with _ | ⟨q, rest⟩
    · exact Moves.pure ()
    · refine Moves.bind (Moves.modify fun _ => rfl) fun _ => ?_
      unfold sendIfAlive
      split
      next => exact Moves.modify fun _ => rfl
      next => exact Moves.pure ()

theorem restoreStandby_spec {A : String → Act → Prop} (env : Env) {k : String}
    {s : SchedulerHandler} (hs : s.index.Sound) (hA : A k .rollback) :
    (restoreStandby env k).wp (fun _ s' => Lives A s s' ∧ s'.stoppingOn = s.stoppingOn)
      (fun _ s' => Lives A s s' ∧ s'.stoppingOn = s.stoppingOn) Calm s := by
  unfold restoreStandby
  rw [wp_bind, wp_get]
  rcases hw : s.pods[k]? with _ | w
  · simp [Calm]
  · have hkey : w.pod.podKey = k := hs.key k w hw
    rw [← hkey] at hw hA
    have hlives : Lives A s ((s.setState w .standby).dropFuncPending w.pod.funcKey k) := by
      refine IsTrans.trans _ _ _ (lives_rollback hs.toKeyed hw hA) (Lives.of_life ?_)
      exact life_modifyFunc fun _ => rfl
    dsimp only
    rw [wp_bind, wp_modify, wp_bind, wp_modify]
    have hend : ∀ s', s'.life = ((s.setState w .standby).dropFuncPending w.pod.funcKey k).life →
        s'.nodes = s.nodes → Lives A s s' ∧ s'.stoppingOn = s.stoppingOn := by
      intro s' hlife hnodes
      refine ⟨IsTrans.trans _ _ _ hlives (Lives.of_life hlife), ?_⟩
      unfold stoppingOn
      rw [hnodes]
    have hquiet := quiet_failOneLease env w.pod.funcKey
      ((s.setState w .standby).dropFuncPending w.pod.funcKey k)
    have hnodes := failOneLease_nodes env w.pod.funcKey
      ((s.setState w .standby).dropFuncPending w.pod.funcKey k)
    unfold wp at hquiet hnodes ⊢
    split
    next hres =>
      rw [hres] at hquiet hnodes
      exact hend _ hquiet hnodes
    next hres =>
      rw [hres] at hquiet hnodes
      exact hend _ hquiet hnodes
    next hres =>
      rw [hres] at hquiet
      exact hquiet

theorem processResumeWorkerComplete_spec (env : Env) (rpc : ResumeRpc) (result : Option Error)
    {s : SchedulerHandler} (hs : s.index.Sound) :
    (processResumeWorkerComplete env rpc result).wp (fun _ s' => Lives (ResumeUndone s rpc) s s')
      (fun _ s' => Lives (ResumeUndone s rpc) s s') Calm s := by
  unfold processResumeWorkerComplete
  rcases result with _ | e
  · exact Std.Refl.refl s
  · dsimp only
    split
    next =>
      rw [wp_bind]
      refine wp_mono (freeNodeResource_spec rpc.nodename rpc.resources s) (fun _ s₁ h₁ => ?_)
        (fun _ _ h => h.elim) fun _ h => h
      rw [wp_bind, wp_modify, wp_bind]
      have hlife : (s₁.dropNodePending rpc.nodename rpc.podKey).life = s.life :=
        Eq.trans (life_modifyNode fun _ => rfl) h₁.1
      have hstop : (s₁.dropNodePending rpc.nodename rpc.podKey).stoppingOn = s.stoppingOn :=
        Eq.trans (stoppingOn_modifyNode fun _ => rfl) h₁.2
      have hs₁ : (s₁.dropNodePending rpc.nodename rpc.podKey).index.Sound :=
        index_of_life hlife ▸ hs
      refine wp_mono (restoreStandby_spec (A := ResumeUndone s rpc) env hs₁ (Or.inl ⟨rfl, rfl⟩))
        (fun _ s₂ h₂ => ?_) (fun _ s₂ h₂ => ?_) fun _ h => h
      · have hlives : Lives (ResumeUndone s rpc) s s₂ :=
          IsTrans.trans _ _ _ (Lives.of_life hlife) h₂.1
        rw [wp_modify]
        refine IsTrans.trans _ _ _ hlives
          (lives_restoreAll rpc.terminated (hlives.sound _ _ hs) fun k hk hstopping => ?_)
        refine Or.inr ⟨rfl, hk, ?_⟩
        exact stopping_congr (pods_of_index hlives.index) (h₂.2.trans hstop) hstopping
      · exact IsTrans.trans _ _ _ (Lives.of_life hlife) h₂.1
    next => simp [Calm]

theorem processStartWorkerComplete_spec (env : Env) (rpc : StartRpc) (result : Option Error)
    {s : SchedulerHandler} (hs : s.index.Sound) :
    (processStartWorkerComplete env rpc result).wp
      (fun _ s' => Lives (RestoreOf s rpc.terminated) s s')
      (fun _ s' => Lives (RestoreOf s rpc.terminated) s s') Calm s := by
  unfold processStartWorkerComplete
  rcases result with _ | e
  · exact Std.Refl.refl s
  · dsimp only
    split
    next =>
      rw [wp_bind, wp_modify, wp_bind]
      refine wp_mono (freeNodeResource_spec rpc.nodename rpc.resources _) (fun _ s₁ h₁ => ?_)
        (fun _ _ h => h.elim) fun _ h => h
      rw [wp_bind, wp_modify, wp_bind, wp_modify, wp_bind, wp_modify]
      have hlife₁ : s₁.life = s.life := h₁.1.trans (life_modifyNode fun _ => rfl)
      have hstop₁ : s₁.stoppingOn = s.stoppingOn :=
        h₁.2.trans (stoppingOn_modifyNode fun _ => rfl)
      let s₂ := if rpc.createType = .snapshot then
        (s₁.dropFuncPending rpc.funcid rpc.podkey).removePendingSnapshot rpc.funcid rpc.nodename
        else s₁.dropFuncPending rpc.funcid rpc.podkey
      have hlife₂ : s₂.life = s.life := by
        have hdrop : (s₁.dropFuncPending rpc.funcid rpc.podkey).life = s₁.life :=
          life_modifyFunc fun _ => rfl
        unfold s₂
        split
        next => exact (life_removePendingSnapshot _ _).trans (hdrop.trans hlife₁)
        next => exact hdrop.trans hlife₁
      have hstop₂ : s₂.stoppingOn = s.stoppingOn := by
        rw [← hstop₁]
        unfold s₂
        split
        next =>
          unfold removePendingSnapshot
          split
          next => rfl
          next => rfl
        next => rfl
      have hlives : Lives (RestoreOf s rpc.terminated) s
          (rpc.terminated.foldl restoreTerminated s₂) := by
        refine IsTrans.trans _ _ _ (Lives.of_life hlife₂)
          (lives_restoreAll rpc.terminated (index_of_life hlife₂ ▸ hs) fun k hk hstopping => ?_)
        exact ⟨rfl, hk, stopping_congr (pods_of_index (index_of_life hlife₂)) hstop₂ hstopping⟩
      have htask : Quiet (if rpc.createType = .snapshot then
          addSnapshotTask env rpc.nodename rpc.funcid else (return () : SchedM Unit)) := by
        split
        next => exact quiet_addSnapshotTask env _ _
        next => exact Moves.pure ()
      exact wp_mono (htask _) (fun _ _ h => IsTrans.trans _ _ _ hlives (Lives.of_life h))
        (fun _ _ h => IsTrans.trans _ _ _ hlives (Lives.of_life h)) fun _ h => h
    next => simp [Calm]

/-- Acts of a duplicate snapshot: evicted pods are put back into the pool. -/
def RelistOf (keys : List String) (k : String) (act : Act) : Prop := act = .relist ∧ k ∈ keys

theorem restoreDuplicate_moves (keys : List String) {k : String} (hk : k ∈ keys) :
    MovesPods (RelistOf keys) (restoreDuplicate k) := by
  intro s hs
  unfold restoreDuplicate
  rw [wp_bind, wp_get]
  rcases hw : s.pods[k]? with _ | w
  · exact Std.Refl.refl s
  · have hlife : ((s.modifyNode w.pod.nodename (·.removeStoppingPod k)).modifyFunc w.pod.funcKey
        (·.removeStoppingPod k)).life = s.life := by
      refine Eq.trans (life_modifyFunc ?_) (life_modifyNode ?_)
      · exact fun _ => rfl
      · exact fun _ => rfl
    have hrelist : Lives (RelistOf keys) s
        (((s.modifyNode w.pod.nodename (·.removeStoppingPod k)).modifyFunc w.pod.funcKey
          (·.removeStoppingPod k)).putIdle k) := by
      refine IsTrans.trans _ _ _ (Lives.of_life hlife)
        (Lives.act (k := k) (x := .relist) rfl rfl ⟨rfl, hk⟩ ?_ fun a ha => slot_putIdle_of_ne ha)
      rw [slot_putIdle_self, slot_of_life hlife, slot_of_tracked hw]
      exact .relist
    dsimp only
    refine MovesFrom.wp_bind_of ?_
    rw [wp_modify]
    refine ⟨hrelist, ?_⟩
    rcases s.nodes[w.pod.nodename]? with _ | ns
    · exact Std.Refl.refl _
    · exact (quiet_allocOnNode w.pod.nodename w.pod.reqResources false).movesPods.ignore _
        (hrelist.sound _ _ hs)

theorem processCleanupDuplicateSnapshot_moves (rpc : StartRpc) :
    MovesPods (RelistOf rpc.terminated) (processCleanupDuplicateSnapshot rpc) := by
  refine MovesPods.bind (Quiet.movesPods (Quiet.modify fun _ => life_removePendingSnapshot _ _))
    fun _ => ?_
  refine MovesPods.bind (Quiet.movesPods (Quiet.modify fun _ => life_modifyNode fun _ => rfl))
    fun _ => ?_
  refine MovesPods.bind (quiet_freeNodeResource _ _).movesPods fun _ => ?_
  refine MovesPods.bind (Quiet.movesPods (Quiet.modify fun _ => life_modifyFunc fun _ => rfl))
    fun _ => ?_
  exact MovesPods.each fun k hk => restoreDuplicate_moves rpc.terminated hk

end Inferx
