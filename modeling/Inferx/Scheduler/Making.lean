import Inferx.Scheduler.Eviction

/-!
# Making pods moves pods

What resuming a pod, creating one, and the periodic tasks built on these do to
the pods that are there. Evictions take distinct pods out of the idle pool one
by one and mark them; a resume moves one standby pod of the function; nothing
else happens to a pod.
-/

namespace Inferx

open Proc SchedulerHandler

/-! ## Slots after a series of changes -/

/-- A slot with its pod marked terminating. -/
def Slot.terminated (a : Slot) : Slot where
  entry := a.entry.map fun e => (e.1, { e.2 with state := .terminating })
  idle := a.idle

/-- A slot out of the idle pool. -/
def Slot.unlisted (a : Slot) : Slot := { a with idle := false }

theorem Slot.terminated_terminated (a : Slot) : a.terminated.terminated = a.terminated := by
  unfold terminated
  rw [Option.map_map]
  rfl

namespace SchedulerHandler

variable {s : SchedulerHandler} {k : String} {w : WorkerPod} {ws : List WorkerPod}

theorem slot_markTerminating (env : Env) (hs : s.index.Keyed)
    (hw : s.pods[w.pod.podKey]? = some w) :
    (s.markTerminating env w).slot k =
      if k = w.pod.podKey then (s.slot k).terminated else s.slot k := by
  have hrfl : (s.markTerminating env w).slot k = (s.setState w .terminating).slot k := rfl
  rw [hrfl]
  split
  next hk =>
    subst hk
    rw [setState, slot_setCell_self hw, slot_of_tracked hw]
    rfl
  next hk => exact slot_setCell_of_ne hs hw hk

theorem slot_markAllTerminating (env : Env) (hs : s.index.Keyed)
    (hws : ∀ w ∈ ws, s.pods[w.pod.podKey]? = some w) :
    (s.markAllTerminating env ws).slot k =
      if k ∈ ws.map fun w => w.pod.podKey then (s.slot k).terminated else s.slot k := by
  induction ws generalizing s with
  | nil => rfl
  | cons w ws ih =>
    have hw := hws w (List.mem_cons_self ..)
    have hrest : (s.markAllTerminating env (w :: ws)).slot k =
        ((s.markTerminating env w).markAllTerminating env ws).slot k := rfl
    rw [hrest, ih (s := s.markTerminating env w) hs fun v hv => hws v (List.mem_cons_of_mem w hv),
      slot_markTerminating env hs hw, List.map_cons]
    by_cases hk : k = w.pod.podKey
    · simp [hk, Slot.terminated_terminated]
    · simp [hk]

theorem slot_popIdle : (s.popIdle w.pod.podKey).slot k =
    if k = w.pod.podKey then (s.slot k).unlisted else s.slot k := by
  split
  next hk =>
    subst hk
    exact slot_popIdle_self
  next hk => exact slot_popIdle_of_ne hk

/-- Take pods out of the idle pool. -/
def popAll (s : SchedulerHandler) (ws : List WorkerPod) : SchedulerHandler :=
  ws.foldl (fun s w => s.popIdle w.pod.podKey) s

theorem index_popAll (ws : List WorkerPod) : (s.popAll ws).index = s.index :=
  index_foldl (g := fun s (w : WorkerPod) => s.popIdle w.pod.podKey) (fun _ _ => rfl) ws s

theorem slot_popAll : (s.popAll ws).slot k =
    if k ∈ ws.map fun w => w.pod.podKey then (s.slot k).unlisted else s.slot k := by
  induction ws generalizing s with
  | nil => rfl
  | cons w ws ih =>
    have hrest : (s.popAll (w :: ws)).slot k = ((s.popIdle w.pod.podKey).popAll ws).slot k := rfl
    rw [hrest, ih, slot_popIdle, List.map_cons]
    by_cases hk : k = w.pod.podKey
    · simp [hk, Slot.unlisted]
    · simp [hk]

theorem grants_popAll : (s.popAll ws).grants = s.grants := by
  induction ws generalizing s with
  | nil => rfl
  | cons w ws ih => exact ih (s := s.popIdle w.pod.podKey)

theorem grants_markAllTerminating (env : Env) : (s.markAllTerminating env ws).grants = s.grants := by
  induction ws generalizing s with
  | nil => rfl
  | cons w ws ih => exact ih (s := s.markTerminating env w)

theorem index_markAllTerminating (env : Env) :
    (s.markAllTerminating env ws).index = s.index :=
  index_foldl (fun s w => index_markTerminating s env w) ws s

end SchedulerHandler

/-! ## Evictions -/

/-- The rest can still be evicted after the first one has been taken out. -/
theorem Evictable.tail {s s' : SchedulerHandler} {n : String} {w : WorkerPod}
    {ws : List WorkerPod} (h : Evictable s n (w :: ws)) (hpods : s'.pods = s.pods)
    (hidle : s'.idlePods = s.idlePods.pop w.pod.podKey) : Evictable s' n ws := by
  obtain ⟨hw, hnodup⟩ := List.nodup_cons.mp h.nodup
  refine ⟨hnodup, fun v hv => ?_, fun v hv => ?_, fun v hv => h.node v (List.mem_cons_of_mem w hv)⟩
  · rw [hpods]
    exact h.tracked v (List.mem_cons_of_mem w hv)
  · rw [hidle, LruCache.mem_pop]
    refine ⟨fun hvw => hw ?_, h.idle v (List.mem_cons_of_mem w hv)⟩
    exact List.mem_map.mpr ⟨v, hv, hvw⟩

theorem Evictable.of_life {s s' : SchedulerHandler} {n : String} {ws : List WorkerPod}
    (h : Evictable s n ws) (hlife : s'.life = s.life) : Evictable s' n ws := by
  refine ⟨h.nodup, fun w hw => ?_, fun w hw => ?_, h.node⟩
  · rw [pods_of_index (index_of_life hlife)]
    exact h.tracked w hw
  · rw [mem_idlePods_of_slot (congrFun (slot_of_life hlife) _)]
    exact h.idle w hw

theorem wp_popIdleChecked {k : String} {Q : Unit → SchedulerHandler → Prop}
    {E : Error → SchedulerHandler → Prop} {N : Panic → Prop} {s : SchedulerHandler}
    (hk : k ∈ s.idlePods) : (popIdleChecked k).wp Q E N s ↔ Q () (s.popIdle k) := by
  unfold popIdleChecked
  rw [wp_bind, wp_get, if_pos hk, wp_modify]

theorem wp_popIdleChecked_missing {k : String} {Q : Unit → SchedulerHandler → Prop}
    {E : Error → SchedulerHandler → Prop} {N : Panic → Prop} {s : SchedulerHandler}
    (hk : k ∉ s.idlePods) : (popIdleChecked k).wp Q E N s ↔ N .idlePodMissing := by
  unfold popIdleChecked
  rw [wp_bind, wp_get, if_neg hk, wp_crash]

theorem lives_evict {A : String → Act → Prop} {s : SchedulerHandler} {w : WorkerPod} (env : Env)
    (hA : A w.pod.podKey .evict) (hs : s.index.Keyed) (hw : s.pods[w.pod.podKey]? = some w)
    (hidle : w.pod.podKey ∈ s.idlePods) :
    Lives A s ((s.popIdle w.pod.podKey).markTerminating env w) := by
  have hslot : ∀ a, ((s.popIdle w.pod.podKey).markTerminating env w).slot a =
      if a = w.pod.podKey then (s.slot a).unlisted.terminated else s.slot a := by
    intro a
    rw [slot_markTerminating (s := s.popIdle w.pod.podKey) env hs hw, slot_popIdle]
    split
    next => rfl
    next => rfl
  refine Lives.act rfl rfl hA ?_ fun a ha => by rw [hslot, if_neg ha]
  rw [hslot, if_pos rfl, slot_of_tracked hw, decide_eq_true hidle]
  exact .evict

theorem evictIdle_spec {A : String → Act → Prop} (hA : ∀ k, A k .evict) (env : Env) {n : String}
    {ws : List WorkerPod} {s : SchedulerHandler} (hs : s.index.Sound) (hws : Evictable s n ws) :
    (evictIdle env ws).wp (fun _ s' => Lives A s s') (fun _ s' => Lives A s s') Calm s := by
  induction ws generalizing s with
  | nil => exact Std.Refl.refl s
  | cons w ws ih =>
    have hidle := hws.idle w (List.mem_cons_self ..)
    unfold evictIdle each
    rw [wp_bind, wp_bind, wp_popIdleChecked hidle, wp_modify]
    have hone := lives_evict env (hA w.pod.podKey) hs.toKeyed
      (hws.tracked w (List.mem_cons_self ..)) hidle
    refine wp_mono (ih (hone.sound _ _ hs) (hws.tail rfl rfl)) (fun _ _ h => ?_) (fun _ _ h => ?_)
      fun _ h => h
    · exact IsTrans.trans _ _ _ hone h
    · exact IsTrans.trans _ _ _ hone h

theorem popAllChecked_spec {n : String} {ws : List WorkerPod} {s : SchedulerHandler}
    {Q : Unit → SchedulerHandler → Prop} {E : Error → SchedulerHandler → Prop} {N : Panic → Prop}
    (hws : Evictable s n ws) (h : Q () (s.popAll ws)) :
    (each (fun w => popIdleChecked w.pod.podKey) ws).wp Q E N s := by
  induction ws generalizing s with
  | nil => exact h
  | cons w ws ih =>
    unfold each
    rw [wp_bind, wp_popIdleChecked (hws.idle w (List.mem_cons_self ..))]
    exact ih (hws.tail rfl rfl) h

/-! ## Resumes -/

/-- A pod found with a function is the tracked one, and is one of the function. -/
theorem tracked_of_funcPods {s : SchedulerHandler} (hs : s.index.Sound) {f : String} {w : WorkerPod}
    (hw : w ∈ s.getFuncPodsByKey f) : s.pods[w.pod.podKey]? = some w ∧ w.pod.funcKey = f := by
  unfold getFuncPodsByKey at hw
  rcases hf : s.funcs[f]? with _ | fs
  · rw [hf] at hw
    cases hw
  · simp only [hf, List.mem_map] at hw
    obtain ⟨⟨k, v⟩, hkv, rfl⟩ := hw
    obtain ⟨htracked, hfunc⟩ := hs.func f fs.pods k v (known_func hf) (BTreeMap.mem_toList.mp hkv)
    have hkey : v.pod.podKey = k := hs.key k v htracked
    rw [hkey]
    exact ⟨htracked, hfunc⟩

/-- Acts of a resume of the pod with key `key` for the tenant `t`. -/
def ResumeOf (key : String) (t : Option String) (k : String) (act : Act) : Prop :=
  MakesRoom act ∨ k = key ∧ act = .resume t

/-- Evicting pods and setting the resumed one, as the source orders it. -/
theorem lives_resume {s : SchedulerHandler} (env : Env) (t : Option String) {n : String}
    {w : WorkerPod} {ws : List WorkerPod} (hs : s.index.Sound) (hws : Evictable s n ws)
    (hw : s.pods[w.pod.podKey]? = some w) (hstandby : w.pod.state = .standby)
    (hstate : s.stateOf w = .standby) (hne : ∀ v ∈ ws, v.pod.podKey ≠ w.pod.podKey) :
    Lives (ResumeOf w.pod.podKey t) s
      (((s.popAll ws).setCell w { state := .resuming, consumerTenant := t }).markAllTerminating
        env ws) := by
  have hpods : (s.popAll ws).pods = s.pods := pods_of_index (index_popAll ws)
  have hkeyed : (s.popAll ws).index.Keyed := (index_popAll ws).symm ▸ hs.toKeyed
  have hw' : (s.popAll ws).pods[w.pod.podKey]? = some w := by rw [hpods]; exact hw
  have htracked : ∀ v ∈ ws, (s.popAll ws).pods[v.pod.podKey]? = some v := by
    intro v hv
    rw [hpods]
    exact hws.tracked v hv
  have hmark := fun k => slot_markAllTerminating (k := k)
    (s := (s.popAll ws).setCell w { state := .resuming, consumerTenant := t }) env hkeyed htracked
  refine ⟨?_, ?_, fun k => ?_⟩
  · rw [index_markAllTerminating]
    exact index_popAll ws
  · rw [grants_markAllTerminating]
    exact fun p hp => Or.inl (grants_popAll (s := s) ▸ hp)
  · rw [hmark k]
    by_cases hk : k = w.pod.podKey
    · -- the resumed pod
      have hmem : k ∉ ws.map fun w => w.pod.podKey := by
        rintro hmem
        obtain ⟨v, hv, hvk⟩ := List.mem_map.mp hmem
        exact hne v hv (hvk.trans hk)
      rw [if_neg hmem, hk, slot_setCell_self hw', slot_popAll, if_neg (hk ▸ hmem)]
      refine Path.single (Or.inr ⟨rfl, rfl⟩) ?_
      rw [slot_of_tracked hw]
      exact .resume hstate hstandby
    · rw [slot_setCell_of_ne hkeyed hw' hk, slot_popAll]
      split
      next hmem =>
        obtain ⟨v, hv, rfl⟩ := List.mem_map.mp hmem
        refine Path.single (Or.inl (Or.inl rfl)) ?_
        rw [slot_of_tracked (hws.tracked v hv), decide_eq_true (hws.idle v hv)]
        exact .evict
      next => exact Path.refl _ _

theorem resolveFunc_spec (fpKey : String) {s : SchedulerHandler} :
    (resolveFunc fpKey).wp
      (fun fp s' => s' = s ∧ ∃ key fs, s.funcKeysFrom fpKey = [key] ∧ s.funcs[key]? = some fs ∧
        fs.func = fp)
      (fun _ s' => s' = s) Calm s := by
  unfold resolveFunc
  rw [wp_bind, wp_get]
  rcases hkeys : s.funcKeysFrom fpKey with _ | ⟨key, _ | ⟨key', rest⟩⟩
  · rfl
  · simp only
    rcases hfs : s.funcs[key]? with _ | fs
    · rfl
    · exact ⟨rfl, key, fs, rfl, hfs, rfl⟩
  · rfl

/-- What a resume that went out has done: one standby pod of the function is
being resumed, and pods of other functions have been evicted for it. -/
structure Resumed (fpKey : String) (t : Option String) (s s' : SchedulerHandler) (w : WorkerPod) :
    Prop where
  /-- the function is the one with the key -/
  func : ∃ key fs, s.funcKeysFrom fpKey = [key] ∧ s.funcs[key]? = some fs ∧
    w ∈ s.getFuncPodsByKey fs.func.id
  /-- what happened to the pods -/
  lives : Lives (ResumeOf w.pod.podKey t) s s'

/-- Dropping keys without a pod leaves the pods as they are. -/
theorem Path.entry_of_dropMissing {a b : Slot} (h : Path (fun act => act = .dropMissing) a b) :
    b.entry = a.entry := by
  refine h.invariant (I := fun x => x.entry = a.entry) ?_ rfl
  rintro act x y rfl ⟨⟩ hx
  exact hx

theorem resumePod_spec (env : Env) (fpKey : String) (t : Option String) {s : SchedulerHandler}
    (hs : s.index.Sound) :
    (resumePod env fpKey t).wp (fun _ s' => ∃ w, Resumed fpKey (resumeConsumer t) s s' w)
      (fun _ s' => Lives (fun _ act => act = .dropMissing) s s') Calm s := by
  unfold resumePod
  rw [wp_bind]
  refine wp_mono (resolveFunc_spec fpKey) (fun fp s₀ h₀ => ?_) (fun _ s₀ h₀ => ?_) fun _ h => h
  · obtain ⟨rfl, key, fs, hkey, hfs, rfl⟩ := h₀
    rw [wp_bind]
    refine wp_mono (getBestResumeWorker_spec (A := fun _ act => act = .dropMissing) (fun _ => rfl)
      fs.func hs) (fun r s₁ h₁ => ?_) (fun _ _ h => h) fun _ h => h
    obtain ⟨w, ws, nr⟩ := r
    obtain ⟨hlives, hws, hfunc, hmem, hstandby, hstate⟩ := h₁
    obtain ⟨hw, hwf⟩ := tracked_of_funcPods hs hmem
    have hpods : s₁.pods = s₀.pods := pods_of_index hlives.index
    dsimp only
    simp only [wp_bind, wp_get]
    refine wp_liftFault.mpr ⟨fun ready _ => ?_, fun f _ => calm_fault f⟩
    refine wp_liftFault.mpr ⟨fun nr' _ => ?_, fun f _ => calm_fault f⟩
    refine wp_mono (quiet_allocFrom nr' ready false s₁) (fun resources s₂ h₂ => ?_)
      (fun _ s₂ h₂ => IsTrans.trans _ _ _ hlives (Lives.of_life h₂)) fun _ h => h
    refine wp_mono (quiet_getNode w.pod.nodename s₂) (fun _ s₃ h₃ => ?_)
      (fun _ s₃ h₃ => IsTrans.trans _ _ _ hlives (Lives.of_life (h₃.trans h₂))) fun _ h => h
    have hlife : s₃.life = s₁.life := h₃.trans h₂
    have hs₃ : s₃.index.Sound := (index_of_life hlife).symm ▸ hlives.sound _ _ hs
    have hw₃ : s₃.pods[w.pod.podKey]? = some w := by
      rw [pods_of_index (index_of_life hlife), hpods]
      exact hw
    have hstate₃ : s₃.stateOf w = .standby := by
      rw [← hstate]
      refine stateOf_of_entry hw hw₃ ?_
      rw [slot_of_life hlife]
      exact (hlives.path _).entry_of_dropMissing
    have hne : ∀ v ∈ ws, v.pod.podKey ≠ w.pod.podKey := by
      intro v hv heq
      have hv₁ := hws.tracked v hv
      rw [heq, hpods, hw] at hv₁
      exact hfunc v hv (by rw [← Option.some.inj hv₁]; exact hwf)
    refine popAllChecked_spec (hws.of_life hlife) ?_
    simp only [wp_modify]
    have hresume := lives_resume env (resumeConsumer t) hs₃ (hws.of_life hlife) hw₃ hstandby
      hstate₃ hne
    have hall : Lives (ResumeOf w.pod.podKey (resumeConsumer t)) s₀
        (((s₃.popAll ws).setCell w
          { state := .resuming, consumerTenant := resumeConsumer t }).markAllTerminating env ws) := by
      refine IsTrans.trans _ _ _ (hlives.mono fun _ _ h => Or.inl (Or.inr h)) ?_
      exact IsTrans.trans _ _ _ (Lives.of_life hlife) hresume
    -- the rest is bookkeeping
    refine wp_mono (reserve_spec w.pod.nodename resources _) (fun _ s₄ h₄ => ?_)
      (fun _ _ h => h.elim) fun _ h => h
    refine ⟨w, ⟨key, fs, hkey, hfs, hmem⟩, IsTrans.trans _ _ _ hall (Lives.of_life ?_)⟩
    refine (life_emit rfl).trans (Eq.trans ?_ (h₄.trans (life_addStoppingPods _ _)))
    exact life_modifyNode fun _ => rfl
  · rw [h₀]
    exact Std.Refl.refl s

/-! ## Creations -/

/-- Reserving for a new pod: the pods on the list are evicted. -/
theorem reserveEvicting_spec {A : String → Act → Prop} (hA : ∀ k, A k .evict) (env : Env)
    (func : Function) {n : String} {ws : List WorkerPod} (nr : NodeResources)
    {s : SchedulerHandler} (hs : s.index.Sound) (hws : Evictable s n ws) :
    (reserveEvicting env func n ws nr).wp (fun _ s' => Lives A s s') (fun _ s' => Lives A s s')
      Calm s := by
  unfold reserveEvicting
  refine MovesFrom.wp_bind_of (wp_mono (evictIdle_spec hA env hs hws) (fun _ s₁ h₁ => ⟨h₁, ?_⟩)
    (fun _ _ h => h) fun _ h => h)
  have hrest : MovesPods A (do
      let ns ← getNode n
      modify (·.addStoppingPods n ws)
      let snapshotResource ← liftFault (func.snapshotResource (asU64 ns.node.resources.maxContextCnt))
      let resources ← allocFrom nr snapshotResource true
      reserve n resources
      return resources) := by
    refine Quiet.movesPods (Moves.bind (quiet_getNode n) fun _ => ?_)
    refine Moves.bind (Quiet.modify fun _ => life_addStoppingPods n ws) fun _ => ?_
    refine Moves.bind (quiet_liftFault _) fun _ => Moves.bind (quiet_allocFrom _ _ _) fun r => ?_
    exact Moves.bind (quiet_reserve n r) fun _ => Moves.pure r
  exact hrest s₁ (h₁.sound _ _ hs)

/-- Pods are only evicted, or keys without a pod dropped. -/
abbrev OnlyMakesRoom {α : Type} (x : SchedM α) : Prop := MovesPods (fun _ act => MakesRoom act) x

theorem createOneNividaPod_room (env : Env) (funcId : String) :
    OnlyMakesRoom (createOneNividaPod env funcId) := by
  intro s hs
  unfold createOneNividaPod
  rw [wp_bind, wp_get]
  rcases s.funcs[funcId]? with _ | fs
  · exact Std.Refl.refl s
  · refine MovesFrom.wp_bind_of (wp_mono (getBestNvidiaRuntimeNode_spec (fun _ => Or.inr rfl)
      fs.func hs) (fun r s₁ h₁ => ⟨h₁.1, ?_⟩) (fun _ _ h => h) fun _ h => h)
    obtain ⟨n, ws, nr⟩ := r
    have hs₁ := h₁.1.sound _ _ hs
    refine MovesFrom.wp_bind_of (wp_mono (reserveEvicting_spec (fun _ => Or.inl rfl) env fs.func nr
      hs₁ h₁.2) (fun resources s₂ h₂ => ⟨h₂, ?_⟩) (fun _ _ h => h) fun _ h => h)
    have hrest : OnlyMakesRoom (do
        let id ← startWorker env fs.func resources .normal ws n
        modify (·.modifyNode n
          (·.addPendingPod (newPendingPod env fs.func n funcId id resources)))) :=
      Quiet.movesPods (Moves.bind (quiet_startWorker env fs.func resources .normal ws n) fun _ =>
        Quiet.modify fun _ => life_modifyNode fun _ => rfl)
    exact hrest s₂ (h₂.sound _ _ hs₁)

theorem snapshotEvictions_spec {A : String → Act → Prop} (hA : ∀ k, A k .dropMissing) (env : Env)
    (funcId n : String) (available : NodeResources) (req : Resources) {s : SchedulerHandler}
    (hs : s.index.Sound) :
    (snapshotEvictions env funcId n available req).wp
      (fun r s' => Lives A s s' ∧ Evictable s' n r.1) (fun _ s' => Lives A s s') Calm s := by
  unfold snapshotEvictions
  rw [wp_bind]
  refine wp_liftFault.mpr ⟨fun state _ => ?_, fun f _ => calm_fault f⟩
  split
  next => exact ⟨Std.Refl.refl s, Evictable.nil s n⟩
  next =>
    rw [wp_bind, wp_attempt]
    refine wp_mono (tryFreeResources_spec hA n funcId available req true hs) (fun _ _ h => h)
      (fun e s₁ h₁ => ?_) fun _ h => h
    split
    next h => cases h
    next =>
      rw [wp_bind, wp_modify, wp_bind]
      refine wp_mono (quiet_addSnapshotTask env n funcId _) (fun _ s₂ h₂ => ?_)
        (fun _ s₂ h₂ => ?_) fun _ h => h
      · exact IsTrans.trans _ _ _ h₁ (Lives.of_life h₂)
      · exact IsTrans.trans _ _ _ h₁ (Lives.of_life h₂)
    next => exact h₁

theorem life_addPendingPod {s : SchedulerHandler} (n f : String) (pp : PendingPod) :
    ((s.modifyNode n (·.addPendingPod pp)).modifyFunc f (·.addPendingPod pp)).life = s.life := by
  refine Eq.trans (life_modifyFunc ?_) (life_modifyNode ?_)
  · exact fun _ => rfl
  · exact fun _ => rfl

theorem quiet_startSnapshotWorker (env : Env) (func : Function) (funcId n : String)
    (ws : List WorkerPod) (r : NodeResources) :
    Quiet (startSnapshotWorker env func funcId n ws r) := by
  refine Moves.bind (Moves.attempt (quiet_startWorker env func r .snapshot ws n)) fun res => ?_
  rcases res with e | id
  · refine Moves.bind (Quiet.modify fun _ => rfl) fun _ => ?_
    exact Moves.bind (quiet_addSnapshotTask env n funcId) fun _ => Moves.throw e
  · refine Moves.bind (Quiet.modify fun _ => rfl) fun _ => Quiet.modify fun s => ?_
    exact life_addPendingPod (s := s) n funcId (newPendingPod env func n funcId id r)

theorem createSnapshotOnNode_room (env : Env) (func : Function) (funcId n : String)
    (ns : NodeStatus) : OnlyMakesRoom (createSnapshotOnNode env func funcId n ns) := by
  intro s hs
  unfold createSnapshotOnNode
  rw [wp_bind]
  refine wp_liftFault.mpr ⟨fun req _ => ?_, fun f _ => calm_fault f⟩
  rw [wp_bind]
  refine wp_liftFault.mpr ⟨fun state _ => ?_, fun f _ => calm_fault f⟩
  split
  next => exact Lives.of_life rfl
  next =>
    refine MovesFrom.wp_bind_of (wp_mono (snapshotEvictions_spec (fun _ => Or.inr rfl) env funcId n
      ns.available req hs) (fun r s₁ h₁ => ⟨h₁.1, ?_⟩) (fun _ _ h => h) fun _ h => h)
    obtain ⟨ws, nr⟩ := r
    have hs₁ := h₁.1.sound _ _ hs
    refine MovesFrom.wp_bind_of (wp_mono (reserveEvicting_spec (fun _ => Or.inl rfl) env func nr
      hs₁ h₁.2) (fun resources s₂ h₂ => ⟨h₂, ?_⟩) (fun _ _ h => h) fun _ h => h)
    exact (quiet_startSnapshotWorker env func funcId n ws resources).movesPods s₂
      (h₂.sound _ _ hs₁)

theorem tryCreateSnapshotOnNode_room (env : Env) (funcId n : String) :
    OnlyMakesRoom (tryCreateSnapshotOnNode env funcId n) := by
  refine MovesPods.bind Moves.get.movesFrom fun s => ?_
  split
  next => exact (Moves.pure ()).movesFrom
  next =>
    split
    next fs ns _ _ =>
      split
      next => exact (Moves.pure ()).movesFrom
      next =>
        split
        next =>
          exact Quiet.movesPods (Moves.bind (Quiet.modify fun _ => rfl) fun _ => Moves.throw _)
        next =>
          split
          next =>
            exact Quiet.movesPods (Moves.bind (quiet_addSnapshotTask env n funcId) fun _ =>
              Moves.throw _)
          next => exact createSnapshotOnNode_room env fs.func funcId n ns
    next => exact (Moves.pure ()).movesFrom

/-! ## Standby pods, prewarming, tasks -/

theorem quiet_createStandbyPod (env : Env) (funcId n : String) :
    Quiet (createStandbyPod env funcId n) := by
  refine Moves.bind Moves.get fun s => ?_
  rcases s.funcs[funcId]? with _ | fs
  · exact Moves.pure ()
  · refine Moves.bind (quiet_liftFault _) fun req => ?_
    refine Moves.bind (quiet_allocOnNode n req false) fun r => ?_
    refine Moves.bind (Moves.attempt (quiet_startWorker env fs.func r .restore [] n)) fun res => ?_
    rcases res with e | id
    · exact Moves.bind (quiet_freeNodeResource n r) fun _ => Moves.throw e
    · exact Quiet.modify fun s => life_addPendingPod n funcId _

theorem quiet_tryAdjustStandbyPodsOnNode (env : Env) (n : String) :
    Quiet (tryAdjustStandbyPodsOnNode env n) := by
  refine Moves.bind Moves.get fun s => ?_
  rcases s.nodes[n]? with _ | ns
  · exact Moves.pure ()
  · refine Moves.bind (Quiet.modify fun _ => rfl) fun _ => ?_
    split
    next => exact Moves.pure ()
    next =>
      refine Moves.bind (Moves.each fun w _ => Moves.ignore (quiet_stopWorker w.pod)) fun _ => ?_
      dsimp only
      split
      next => exact Moves.pure ()
      next => exact quiet_createStandbyPod env _ n

/-- Acts of prewarming: room is made, and pods are resumed for nobody. -/
def Prewarms (act : Act) : Prop := MakesRoom act ∨ act = .resume none

abbrev OnlyPrewarms {α : Type} (x : SchedM α) : Prop := MovesPods (fun _ act => Prewarms act) x

theorem addNvidiaReplica_room (env : Env) (f : String) (policy : FuncPolicySpec) :
    OnlyMakesRoom (addNvidiaReplica env f policy) := by
  refine MovesPods.bind Moves.get.movesFrom fun s => ?_
  split
  next => exact (createOneNividaPod_room env f).ignore
  next => exact (Moves.pure ()).movesFrom

theorem resumePod_prewarms (env : Env) (f : String) : OnlyPrewarms (resumePod env f none) := by
  intro s hs
  refine wp_mono (resumePod_spec env f none hs) (fun _ s' h => ?_) (fun _ s' h => ?_) fun _ h => h
  · obtain ⟨w, hw⟩ := h
    exact hw.lives.mono fun _ _ h => h.imp_right And.right
  · exact h.mono fun _ _ h => Or.inl (Or.inr h)

theorem processAddFunc_prewarms (env : Env) (f : String) : OnlyPrewarms (processAddFunc env f) := by
  refine MovesPods.bind Moves.get.movesFrom fun s => ?_
  split
  next => exact (Moves.pure _).movesFrom
  next =>
    rcases s.funcs[f]? with _ | fs
    · exact (Moves.pure _).movesFrom
    · simp only
      split
      next => exact (Moves.pure _).movesFrom
      next =>
        refine MovesPods.bind ((addNvidiaReplica_room env f _).mono fun _ _ => Or.inl) fun _ => ?_
        refine MovesPods.bind Moves.get.movesFrom fun s => ?_
        split
        next =>
          refine MovesPods.bind (resumePod_prewarms env f).attempt fun res => ?_
          rcases res with e | _
          · exact (Moves.pure _).movesFrom
          · exact (Moves.pure _).movesFrom
        next => exact (Moves.pure _).movesFrom

theorem prewarm_prewarms (env : Env) (l : List String) : OnlyPrewarms (prewarm env l) := by
  induction l with
  | nil => exact (Moves.pure ()).movesFrom
  | cons f l ih =>
    refine MovesPods.bind (processAddFunc_prewarms env f) fun done => ?_
    split
    next => exact (Moves.pure ()).movesFrom
    next => exact ih

theorem refreshScheduling_prewarms (env : Env) : OnlyPrewarms (refreshScheduling env) :=
  MovesPods.bind Moves.get.movesFrom fun _ => prewarm_prewarms env _

theorem processTask_room (env : Env) (task : SchedTask) : OnlyMakesRoom (processTask env task) := by
  cases task with
  | refreshSnapshot => exact (Moves.pure ()).movesFrom
  | removeSnapshotFromNode n f => exact (Moves.pure ()).movesFrom
  | snapshotTask f n => exact (tryCreateSnapshotOnNode_room env f n).ignore
  | nvidiaPodTask f => exact (createOneNividaPod_room env f).ignore
  | standbyTask n => exact (quiet_tryAdjustStandbyPodsOnNode env n).movesPods.ignore
  | addNode n => exact Quiet.movesPods (Quiet.modify fun _ => rfl)
  | addFunc f =>
    exact Quiet.movesPods (Moves.bind Moves.get fun _ =>
      Moves.each fun n _ => quiet_addSnapshotTask env n f)
  | delayedInitNode n =>
    refine Quiet.movesPods (Moves.bind Moves.get fun _ => Moves.bind (Moves.each fun f _ =>
      quiet_addSnapshotTask env n f) fun _ => ?_)
    exact Quiet.modify fun _ => rfl

theorem startFunc_prewarms (env : Env) (f : String) : OnlyPrewarms (startFunc env f) :=
  MovesPods.bind (processAddFunc_prewarms env f) fun _ => (quiet_addTask _).movesPods

theorem completeWarmupAfterConnect_prewarms (env : Env) :
    OnlyPrewarms (completeWarmupAfterConnect env) := by
  refine MovesPods.bind Moves.get.movesFrom fun s => ?_
  split
  next => exact (Moves.pure ()).movesFrom
  next =>
    refine MovesPods.bind (Quiet.movesPods (Quiet.modify fun _ => rfl)) fun _ => ?_
    exact MovesPods.bind (refreshScheduling_prewarms env) fun _ =>
      (quiet_initSnapshotTask env).movesPods

theorem checkAndCompleteWarmup_prewarms (env : Env) : OnlyPrewarms (checkAndCompleteWarmup env) := by
  refine MovesPods.bind Moves.get.movesFrom fun s => ?_
  rcases s.warmupStartTime with _ | t
  · exact (Moves.pure ()).movesFrom
  · simp only
    split
    next => exact completeWarmupAfterConnect_prewarms env
    next => exact (Moves.pure ()).movesFrom

end Inferx
