import Inferx.Scheduler.Making

/-!
# Messages move pods

What the messages of the gateways, the kill request, the timers and the RPC
completions do to the pods. Each handler is given the acts it allows, in terms
of the state it starts in.
-/

namespace Inferx

open Proc SchedulerHandler

namespace SchedulerHandler

variable {s : SchedulerHandler} {k : String} {w : WorkerPod}

theorem lives_mark {A : String → Act → Prop} (env : Env) (hs : s.index.Keyed)
    (hw : s.pods[w.pod.podKey]? = some w) (hA : A w.pod.podKey .mark) :
    Lives A s (s.markTerminating env w) := by
  refine Lives.act rfl rfl hA ?_ fun a ha => ?_
  · rw [slot_markTerminating env hs hw, if_pos rfl, slot_of_tracked hw]
    exact .mark
  · rw [slot_markTerminating env hs hw, if_neg ha]

theorem slot_setIdle_putIdle (hs : s.index.Keyed) (hw : s.pods[w.pod.podKey]? = some w) :
    ((s.setIdle w).putIdle w.pod.podKey).slot k =
      if k = w.pod.podKey then ⟨some (w.pod, ⟨.idle, none⟩), true⟩ else s.slot k := by
  split
  next hk =>
    subst hk
    rw [slot_putIdle_self, setIdle, slot_setCell_self hw]
  next hk =>
    rw [slot_putIdle_of_ne hk]
    exact slot_setCell_of_ne hs hw hk

theorem lives_giveBack {A : String → Act → Prop} (hs : s.index.Keyed)
    (hw : s.pods[w.pod.podKey]? = some w) (hA : A w.pod.podKey .giveBack)
    (hstate : s.stateOf w ≠ .terminating) :
    Lives A s ((s.setIdle w).putIdle w.pod.podKey) := by
  refine Lives.act rfl rfl hA ?_ fun a ha => ?_
  · rw [slot_setIdle_putIdle hs hw, if_pos rfl, slot_of_tracked hw]
    exact .giveBack hstate
  · rw [slot_setIdle_putIdle hs hw, if_neg ha]

end SchedulerHandler

/-! ## Returns and kills -/

/-- Acts of a return of the pod with key `key`. -/
def ReturnOf (key : String) (fail : Bool) (k : String) (act : Act) : Prop :=
  k = key ∧ act = if fail then .mark else .giveBack

theorem takeBack_spec (env : Env) (fail : Bool) {w : WorkerPod} {s : SchedulerHandler}
    (hs : s.index.Sound) (hw : s.pods[w.pod.podKey]? = some w) :
    (takeBack env fail w).wp (fun _ s' => Lives (ReturnOf w.pod.podKey fail) s s')
      (fun _ s' => Lives (ReturnOf w.pod.podKey fail) s s') Calm s := by
  unfold takeBack
  rw [wp_bind, wp_get]
  split
  next => exact Std.Refl.refl s
  next hstate =>
    cases fail with
    | true =>
      have hmark : Lives (ReturnOf w.pod.podKey true) s (s.markTerminating env w) :=
        lives_mark env hs.toKeyed hw ⟨rfl, rfl⟩
      rw [if_pos rfl]
      refine MovesFrom.wp_bind_of (R := Lives (ReturnOf w.pod.podKey true)) ?_
      rw [wp_modify]
      exact ⟨hmark, (quiet_stopWorker w.pod).movesPods.ignore _ (hmark.sound _ _ hs)⟩
    | false =>
      rw [if_neg (by simp), wp_modify]
      exact lives_giveBack hs.toKeyed hw ⟨rfl, rfl⟩ (by simpa using hstate)

theorem processReturnWorkerReq_moves (env : Env) (req : ReturnWorkerReq) (tx : ℕ) :
    MovesPods (ReturnOf req.worker.podKey req.failworker) (processReturnWorkerReq env req tx) := by
  intro s hs
  unfold processReturnWorkerReq
  rw [wp_bind, wp_get]
  rcases hw : s.pods[req.worker.podKey]? with _ | w
  · exact (quiet_sendChecked env tx rfl).movesPods s hs
  · have hkey : w.pod.podKey = req.worker.podKey := hs.key _ _ hw
    rw [← hkey] at hw ⊢
    refine MovesFrom.wp_bind_of (wp_mono (takeBack_spec env req.failworker hs hw)
      (fun _ s₁ h₁ => ⟨h₁, ?_⟩) (fun _ _ h => h) fun _ h => h)
    exact (quiet_sendChecked env tx rfl).movesPods s₁ (h₁.sound _ _ hs)

theorem stopWorker_spec (pod : FuncPod) (s : SchedulerHandler) :
    (stopWorker pod).wp
      (fun _ s' => s'.life = s.life ∧ (s.index.byNode.known pod.nodename).isSome)
      (fun _ s' => s' = s ∧ s.index.byNode.known pod.nodename = none) (fun _ => False) s := by
  unfold stopWorker
  rw [wp_bind, wp_get]
  rcases hn : s.nodes[pod.nodename]? with _ | ns
  · exact ⟨rfl, unknown_node hn⟩
  · refine ⟨life_emit rfl, ?_⟩
    rw [show s.index.byNode.known pod.nodename = some ns.pods from known_node hn]
    rfl

/-- Acts of a kill of the pod with key `key`: an idle pod is stopped out of the
pool, or put back into it when its node is not known; another one is marked. -/
def KillOf (s : SchedulerHandler) (key k : String) (act : Act) : Prop :=
  k = key ∧ ∃ w, s.pods[key]? = some w ∧
    (act = .kill ∧ (s.index.byNode.known w.pod.nodename).isSome ∨
      act = .relist ∧ s.stateOf w = .idle ∧ s.index.byNode.known w.pod.nodename = none ∨
      act = .mark ∧ s.stateOf w ≠ .idle)

/-- A pod that is not idle is marked once the terminate RPC has gone out. -/
theorem killBusy_spec (env : Env) {w : WorkerPod} {s : SchedulerHandler} (hs : s.index.Sound)
    (hw : s.pods[w.pod.podKey]? = some w) (hne : s.stateOf w ≠ .idle) :
    (killBusy env w).wp (fun _ s' => Lives (KillOf s w.pod.podKey) s s')
      (fun _ s' => Lives (KillOf s w.pod.podKey) s s') Calm s := by
  unfold killBusy
  refine MovesFrom.wp_bind_of (wp_mono ((quiet_stopWorker w.pod).attempt s)
    (fun r s₁ h₁ => ⟨Lives.of_life h₁, ?_⟩) (fun _ _ h => Lives.of_life h) fun _ h => h)
  have hs₁ : s₁.index.Keyed := index_of_life h₁ ▸ hs.toKeyed
  have hw₁ : s₁.pods[w.pod.podKey]? = some w := by
    rw [pods_of_index (index_of_life h₁)]
    exact hw
  rcases r with e | _
  · exact Std.Refl.refl s₁
  · exact lives_mark env hs₁ hw₁ ⟨rfl, w, hw, Or.inr (Or.inr ⟨rfl, hne⟩)⟩

theorem killWorker_spec (env : Env) {w : WorkerPod} {s : SchedulerHandler} (hs : s.index.Sound)
    (hw : s.pods[w.pod.podKey]? = some w) :
    (killWorker env w).wp (fun _ s' => Lives (KillOf s w.pod.podKey) s s')
      (fun _ s' => Lives (KillOf s w.pod.podKey) s s') Calm s := by
  unfold killWorker
  rw [wp_bind, wp_get]
  rcases hstate : s.stateOf w with _ | _ | _ | _ | g | _
  · exact Std.Refl.refl s
  · exact killBusy_spec env hs hw (by rw [hstate]; exact nofun)
  · exact Std.Refl.refl s
  · -- the idle pod
    rw [wp_bind, wp_modify, wp_bind, wp_attempt]
    refine wp_mono (stopWorker_spec w.pod _) (fun _ s₁ h₁ => ?_) (fun _ s₁ h₁ => ?_)
      fun _ h => h.elim
    · obtain ⟨hlife, hnode⟩ := h₁
      have hindex : s₁.index = s.index := index_of_life (s := s.popIdle w.pod.podKey) hlife
      have hgrants : s₁.grants = s.grants := congrArg (fun l => l.2.1) hlife
      have hslot : ∀ a, s₁.slot a = if a = w.pod.podKey then (s.slot a).unlisted else s.slot a := by
        intro a
        rw [slot_of_life hlife]
        exact slot_popIdle
      have hw₁ : s₁.pods[w.pod.podKey]? = some w := by
        rw [pods_of_index hindex]
        exact hw
      refine Lives.act (k := w.pod.podKey) (x := .kill) hindex hgrants
        ⟨rfl, w, hw, Or.inl ⟨rfl, hnode⟩⟩ ?_ fun a ha => ?_
      · rw [slot_markTerminating env (hindex ▸ hs.toKeyed) hw₁, if_pos rfl, hslot, if_pos rfl,
          slot_of_tracked hw]
        exact .kill hstate
      · rw [slot_markTerminating env (hindex ▸ hs.toKeyed) hw₁, if_neg ha, hslot, if_neg ha]
    · obtain ⟨rfl, hnode⟩ := h₁
      refine Lives.act (k := w.pod.podKey) (x := .relist) rfl rfl
        ⟨rfl, w, hw, Or.inr (Or.inl ⟨rfl, hstate, hnode⟩)⟩ ?_ fun a ha => ?_
      · rw [slot_putIdle_self, slot_popIdle_self, slot_of_tracked hw]
        exact .relist
      · rw [slot_putIdle_of_ne ha, slot_popIdle_of_ne ha]
  · exact killBusy_spec env hs hw (by rw [hstate]; exact nofun)
  · exact Std.Refl.refl s

theorem processKillPod_spec (env : Env) (req : WorkerId) (tx : ℕ) {s : SchedulerHandler}
    (hs : s.index.Sound) :
    (processKillPod env req tx).wp (fun _ s' => Lives (KillOf s req.podKey) s s')
      (fun _ s' => Lives (KillOf s req.podKey) s s') Calm s := by
  unfold processKillPod
  rw [wp_bind, wp_get]
  rcases hw : s.pods[req.podKey]? with _ | w
  · exact (quiet_sendIfAlive env tx rfl).movesPods s hs
  · have hkey : w.pod.podKey = req.podKey := hs.key _ _ hw
    rw [← hkey] at hw ⊢
    refine MovesFrom.wp_bind_of (wp_mono (killWorker_spec env hs hw) (fun _ s₁ h₁ => ⟨h₁, ?_⟩)
      (fun _ _ h => h) fun _ h => h)
    exact (quiet_sendIfAlive env tx rfl).movesPods s₁ (h₁.sound _ _ hs)

/-! ## Connects -/

theorem connectPods_spec {s : SchedulerHandler} {g : ℤ} {l : List WorkerId} {pods : List WorkerPod}
    (h : s.connectPods g l = some pods) :
    ∀ w ∈ pods, (∃ id ∈ l, s.pods[id.podKey]? = some w) ∧
      (s.stateOf w = .idle ∨ s.stateOf w = .working g) := by
  induction l generalizing pods with
  | nil =>
    obtain rfl := Option.some.inj h
    exact fun _ hw => (nomatch hw)
  | cons id l ih =>
    unfold connectPods at h
    rcases hid : s.pods[id.podKey]? with _ | v
    · rw [hid] at h
      intro w hw
      obtain ⟨⟨id', hid', hw'⟩, hstate⟩ := ih h w hw
      exact ⟨⟨id', List.mem_cons_of_mem id hid', hw'⟩, hstate⟩
    · simp only [hid] at h
      split at h
      next hv =>
        obtain ⟨rest, hrest, rfl⟩ := Option.map_eq_some_iff.mp h
        intro w hw
        rcases List.mem_cons.mp hw with rfl | hw
        · exact ⟨⟨id, List.mem_cons_self .., hid⟩, hv⟩
        · obtain ⟨⟨id', hid', hw'⟩, hstate⟩ := ih hrest w hw
          exact ⟨⟨id', List.mem_cons_of_mem id hid', hw'⟩, hstate⟩
      next => cases h

theorem stateOf_setState {s : SchedulerHandler} {v w : WorkerPod} {x : WorkerPodState} :
    (s.setState w x).stateOf v = if v.ref = w.ref then x else s.stateOf v := by
  unfold setState setCell stateOf
  dsimp only
  rw [Function.update_apply]
  split
  next => rfl
  next => rfl

/-- Acts of a connecting gateway that names the pods with keys in `keys`. -/
def ConnectOf (g : ℤ) (keys : List String) (k : String) (act : Act) : Prop :=
  act = .connect g ∧ k ∈ keys

theorem lives_connect {A : String → Act → Prop} {s : SchedulerHandler} {w : WorkerPod} {g : ℤ}
    (hs : s.index.Keyed) (hw : s.pods[w.pod.podKey]? = some w) (hA : A w.pod.podKey (.connect g))
    (hstate : s.stateOf w = .idle ∨ s.stateOf w = .working g) :
    Lives A s ((s.setState w (.working g)).popIdle w.pod.podKey) := by
  refine Lives.act rfl rfl hA ?_ fun a ha => ?_
  · rw [slot_popIdle_self, setState, slot_setCell_self hw, slot_of_tracked hw]
    exact .connect hstate
  · rw [slot_popIdle_of_ne ha]
    exact slot_setCell_of_ne hs hw ha

theorem wp_setWorking {w : WorkerPod} {g : ℤ} {Q : Unit → SchedulerHandler → Prop}
    {E : Error → SchedulerHandler → Prop} {N : Panic → Prop} {s : SchedulerHandler}
    (h : s.stateOf w = .idle ∨ ∃ g', s.stateOf w = .working g') :
    (setWorking w g).wp Q E N s ↔ Q () (s.setState w (.working g)) := by
  unfold setWorking
  rw [wp_bind, wp_get]
  rcases h with h | ⟨g', h⟩
  · rw [h]
    exact wp_modify _
  · rw [h]
    exact wp_modify _

theorem connectLoop_spec {s : SchedulerHandler} (hs : s.index.Sound) {g : ℤ} {keys : List String}
    {pods : List WorkerPod} (hpods : ∀ w ∈ pods, s.pods[w.pod.podKey]? = some w ∧
      w.pod.podKey ∈ keys ∧ (s.stateOf w = .idle ∨ s.stateOf w = .working g)) :
    (each (fun pod => do
      setWorking pod g
      modify (·.popIdle pod.pod.podKey)) pods : SchedM Unit).wp
      (fun _ s' => Lives (ConnectOf g keys) s s') (fun _ s' => Lives (ConnectOf g keys) s s')
      Calm s := by
  -- what is known of the pods still to come, when the loop has come to `t`
  let I : List WorkerPod → SchedulerHandler → Prop := fun l t =>
    Lives (ConnectOf g keys) s t ∧ ∀ w ∈ l, s.pods[w.pod.podKey]? = some w ∧
      w.pod.podKey ∈ keys ∧ (t.stateOf w = .idle ∨ t.stateOf w = .working g)
  refine wp_mono (wp_each (I := I) ?_ pods s ⟨Std.Refl.refl s, hpods⟩)
    (fun _ _ h => h.1) (fun _ _ h => h) fun _ h => h
  rintro w l t ⟨hlives, hl⟩
  obtain ⟨hw, hkey, hstate⟩ := hl w (List.mem_cons_self ..)
  have hw' : t.pods[w.pod.podKey]? = some w := by
    rw [pods_of_index hlives.index]
    exact hw
  rw [wp_bind, wp_setWorking (hstate.imp_right fun h => ⟨g, h⟩), wp_modify]
  refine ⟨?_, fun v hv => ?_⟩
  · exact IsTrans.trans _ _ _ hlives
      (lives_connect (hlives.sound _ _ hs).toKeyed hw' ⟨rfl, hkey⟩ hstate)
  · obtain ⟨hv₁, hv₂, hv₃⟩ := hl v (List.mem_cons_of_mem w hv)
    refine ⟨hv₁, hv₂, ?_⟩
    have hv₄ : ((t.setState w (.working g)).popIdle w.pod.podKey).stateOf v =
        if v.ref = w.ref then .working g else t.stateOf v := stateOf_setState
    rw [hv₄]
    split
    next => exact Or.inr rfl
    next => exact hv₃

theorem processConnectReq_moves (env : Env) (req : ConnectReq) (tx : ℕ) :
    MovesPods (ConnectOf req.gatewayId (req.workers.map WorkerId.podKey))
      (processConnectReq env req tx) := by
  intro s hs
  unfold processConnectReq
  rw [wp_bind, wp_get]
  split
  next =>
    exact Quiet.movesPods (Moves.bind (quiet_sendIfAlive env tx rfl) fun _ => Moves.pure false) s hs
  next =>
    rcases hpods : s.connectPods req.gatewayId req.workers with _ | pods
    · exact Quiet.movesPods (Moves.bind (quiet_sendChecked env tx rfl) fun _ => Moves.pure false) s hs
    · refine MovesFrom.wp_bind_of (wp_mono (connectLoop_spec hs fun w hw => ?_)
        (fun _ s₁ h₁ => ⟨h₁, ?_⟩) (fun _ _ h => h) fun _ h => h)
      · obtain ⟨⟨id, hid, hwid⟩, hstate⟩ := connectPods_spec hpods w hw
        have hkey : w.pod.podKey = id.podKey := hs.key _ _ hwid
        rw [hkey]
        exact ⟨hwid, List.mem_map.mpr ⟨id, hid, rfl⟩, hstate⟩
      · exact Quiet.movesPods (Moves.bind (quiet_sendIfAlive env tx rfl) fun _ => Moves.pure true)
          s₁ (h₁.sound _ _ hs)

/-! ## Leases -/

/-- Every idle ready pod is in the idle pool. -/
def IdleListed (s : SchedulerHandler) : Prop :=
  ∀ (k : String) (w : WorkerPod), s.pods[k]? = some w → w.pod.state = .ready →
    s.stateOf w = .idle → k ∈ s.idlePods

/-- The panics of a handler that leases pods from the state `s`. -/
def LeasePanics (s : SchedulerHandler) (p : Panic) : Prop :=
  Calm p ∨ p = .idlePodMissing ∧ ¬ IdleListed s

/-- Acts of a lease request: an idle pod of the function is leased, or one is
resumed for it. -/
def LeaseOf (s : SchedulerHandler) (req : LeaseWorkerReq) (k : String) (act : Act) : Prop :=
  MakesRoom act ∨ act = .resume (resumeConsumer (some req.effectiveTenant)) ∨
    (act = .lease req.gatewayId req.consumer ∧ k ∈ s.idlePods ∧
      ∃ w, s.pods[k]? = some w ∧ w.pod.funcKey = req.funcKey ∧ w.pod.state = .ready ∧
        s.stateOf w = .idle ∧ s.funcs.contains req.funcKey)

theorem handsOut_leaseResp (tx : ℕ) (req : LeaseWorkerReq) (k : String) (resp : LeaseWorkerResp)
    (h : resp.error = "") :
    (Effect.leaseResp tx req (some k) resp).handsOut = some (k, req.gatewayId) := by
  simp [Effect.handsOut, h]

theorem grants_emit_some {s : SchedulerHandler} {e : Effect} {p : String × ℤ}
    (he : e.handsOut = some p) : (s.emit e).grants = s.grants ++ [p] := by
  unfold emit grants
  rw [List.filterMap_append]
  simp [he]

/-- The answer to a lease changes nothing but what has been handed out. -/
theorem answerLease_spec (env : Env) (req : LeaseWorkerReq) (tx : ℕ) (pod : FuncPod)
    (s : SchedulerHandler) :
    (answerLease env req tx pod).wp
      (fun _ s' => s'.index = s.index ∧ s'.slot = s.slot ∧
        s'.grants = s.grants ++ [(pod.podKey, req.gatewayId)])
      (fun _ s' => s' = s) Calm s := by
  have hsend : ∀ resp : LeaseWorkerResp, resp.error = "" →
      (sendLease env tx req (some pod.podKey) resp).wp
        (fun _ s' => s'.index = s.index ∧ s'.slot = s.slot ∧
          s'.grants = s.grants ++ [(pod.podKey, req.gatewayId)]) (fun _ s' => s' = s) Calm s := by
    intro resp hresp
    unfold sendLease
    split
    next => exact ⟨rfl, rfl, grants_emit_some (handsOut_leaseResp tx req _ resp hresp)⟩
    next => simp [Calm]
  unfold answerLease
  rw [wp_bind, wp_get]
  split
  next =>
    rcases s.lookforPeer pod.ipAddr with e | peer
    · rfl
    · exact hsend (peerLeaseResp pod peer true) rfl
  next =>
    rcases parseIpv4 pod.hostIp with _ | ip
    · simp [Calm]
    · exact hsend (hostLeaseResp pod ip) rfl

theorem leaseIdle_spec (env : Env) (req : LeaseWorkerReq) (tx : ℕ) {w : WorkerPod}
    {s : SchedulerHandler} (hs : s.index.Sound) (hw : s.pods[w.pod.podKey]? = some w)
    (hfunc : w.pod.funcKey = req.funcKey) (hready : w.pod.state = .ready)
    (hstate : s.stateOf w = .idle) (hknown : s.funcs.contains req.funcKey) :
    (leaseIdle env req tx w).wp (fun _ s' => Lives (LeaseOf s req) s s')
      (fun _ s' => Lives (LeaseOf s req) s s') (LeasePanics s) s := by
  unfold leaseIdle
  rw [wp_bind, wp_setWorking (Or.inl hstate), wp_bind, wp_modify, wp_bind]
  by_cases hidle : w.pod.podKey ∈ s.idlePods
  · refine (wp_popIdleChecked (s := (s.setState w _).setConsumer w req.consumer) hidle).mpr ?_
    have hA : LeaseOf s req w.pod.podKey (.lease req.gatewayId req.consumer) :=
      Or.inr (Or.inr ⟨rfl, hidle, w, hw, hfunc, hready, hstate, hknown⟩)
    have hlease : Lives (LeaseOf s req) s
        (((s.setState w (.working req.gatewayId)).setConsumer w req.consumer).popIdle
          w.pod.podKey) := by
      rw [setConsumer_setState]
      refine Lives.act rfl rfl hA ?_ fun a ha => ?_
      · rw [slot_popIdle_self, slot_setCell_self hw, slot_of_tracked hw, decide_eq_true hidle]
        exact .lease hstate hready
      · rw [slot_popIdle_of_ne ha]
        exact slot_setCell_of_ne hs.toKeyed hw ha
    refine wp_mono (answerLease_spec env req tx w.pod _) (fun _ s₁ h₁ => ?_) (fun _ s₁ h₁ => ?_)
      fun _ h => Or.inl h
    · obtain ⟨hindex, hslots, hgrants⟩ := h₁
      refine ⟨hindex.trans hlease.index, fun p hp => ?_, fun k => ?_⟩
      · rw [hgrants] at hp
        rcases List.mem_append.mp hp with hp | hp
        · exact hlease.grants p hp
        · rw [List.mem_singleton.mp hp]
          exact Or.inr (Or.inl ⟨req.consumer, hA⟩)
      · rw [hslots]
        exact hlease.path k
    · rw [h₁]
      exact hlease
  · refine (wp_popIdleChecked_missing (s := (s.setState w _).setConsumer w req.consumer)
      hidle).mpr ?_
    exact Or.inr ⟨rfl, fun hall => hidle (hall _ w hw hready hstate)⟩

theorem leaseResuming_spec (env : Env) (req : LeaseWorkerReq) (tx : ℕ) {s : SchedulerHandler}
    (hs : s.index.Sound) :
    (leaseResuming env req tx req.funcKey).wp (fun _ s' => Lives (LeaseOf s req) s s')
      (fun _ s' => Lives (LeaseOf s req) s s') Calm s := by
  unfold leaseResuming
  refine MovesFrom.wp_bind_of ?_
  rw [wp_attempt]
  refine wp_mono (resumePod_spec env req.funcKey (some req.effectiveTenant) hs) (fun _ s₁ h₁ => ?_)
    (fun _ s₁ h₁ => ?_) fun _ h => h
  · obtain ⟨w, hw⟩ := h₁
    have hlives : Lives (LeaseOf s req) s s₁ := hw.lives.mono fun k act h =>
      h.imp_right fun h => Or.inl h.2
    exact ⟨hlives, (quiet_pushLeaseWorkerReq env req.funcKey req tx).movesPods s₁
      (hlives.sound _ _ hs)⟩
  · have hlives : Lives (LeaseOf s req) s s₁ := h₁.mono fun k act h => Or.inl (Or.inr h)
    exact ⟨hlives, (quiet_refuseLease env req tx _).movesPods s₁ (hlives.sound _ _ hs)⟩

theorem isIdle_iff {x : WorkerPodState} : x.isIdle = true ↔ x = .idle := by
  cases x <;> simp [WorkerPodState.isIdle]

/-- **The rule for lease requests**: what a refusal, the lease of an idle pod and the start of a
resume make true, the request makes true. -/
theorem wp_processLeaseWorkerReq {env : Env} {req : LeaseWorkerReq} {tx : ℕ} {s : SchedulerHandler}
    {R : SchedulerHandler → Prop} {N : Panic → Prop} (hs : s.index.Sound) (hover : N (.fault .overflow))
    (hrefuse : ∀ error, (refuseLease env req tx error).wp (fun _ => R) (fun _ => R) N s)
    (hidle : ∀ fs w, s.funcs[req.funcKey]? = some fs →
      s.exceedsGpuLimit req.effectiveTenant fs.func.runningResource.gpu.gpuCount = false →
      s.pods[w.pod.podKey]? = some w → w.pod.funcKey = req.funcKey → w.pod.state = .ready →
      s.stateOf w = .idle → (leaseIdle env req tx w).wp (fun _ => R) (fun _ => R) N s)
    (hresume : ∀ fs, s.funcs[req.funcKey]? = some fs →
      s.exceedsGpuLimit req.effectiveTenant fs.func.runningResource.gpu.gpuCount = false →
      (leaseResuming env req tx req.funcKey).wp (fun _ => R) (fun _ => R) N s) :
    (processLeaseWorkerReq env req tx).wp (fun _ => R) (fun _ => R) N s := by
  have hthrow : ∀ error, (do
      refuseLease env req tx error
      throw (.notExist error) : SchedM Unit).wp (fun _ => R) (fun _ => R) N s := fun error => by
    rw [wp_bind]
    exact wp_mono (hrefuse error) (fun _ _ h => h) (fun _ _ h => h) fun _ h => h
  simp only [processLeaseWorkerReq]
  rw [wp_bind, wp_get]
  rcases hfs : s.funcs[req.funcKey]? with _ | fs
  · exact hthrow _
  · dsimp only
    split
    next => exact hover
    next =>
      split
      next => exact hrefuse _
      next hexceeds =>
        have hroom := Bool.eq_false_iff.mpr hexceeds
        simp only [leaseFrom]
        rw [wp_bind, wp_get]
        rcases hfirst : s.idlePodOf req.funcKey with _ | w
        · dsimp only
          split
          next => exact hthrow _
          next => exact hresume fs hfs hroom
        · obtain ⟨hw, hfunc⟩ := tracked_of_funcPods hs (List.mem_of_find?_eq_some hfirst)
          have hfind := List.find?_some hfirst
          simp only [Bool.and_eq_true, beq_iff_eq] at hfind
          exact hidle fs w hfs hroom hw hfunc hfind.1 (isIdle_iff.mp hfind.2)

theorem processLeaseWorkerReq_spec (env : Env) (req : LeaseWorkerReq) (tx : ℕ)
    {s : SchedulerHandler} (hs : s.index.Sound) :
    (processLeaseWorkerReq env req tx).wp (fun _ s' => Lives (LeaseOf s req) s s')
      (fun _ s' => Lives (LeaseOf s req) s s') (LeasePanics s) s := by
  refine wp_processLeaseWorkerReq hs (Or.inl (calm_fault _)) (fun error => ?_)
    (fun fs w hfs _ hw hfunc hready hstate => ?_) fun fs _ _ => ?_
  · exact wp_mono ((quiet_refuseLease env req tx error).movesPods s hs) (fun _ _ h => h) (fun _ _ h => h)
      fun _ h => Or.inl h
  · refine leaseIdle_spec env req tx hs hw hfunc hready hstate ?_
    rw [Std.ExtTreeMap.contains_eq_isSome_getElem?, hfs]
    rfl
  · exact wp_mono (leaseResuming_spec env req tx hs) (fun _ _ h => h) (fun _ _ h => h) fun _ h => Or.inl h

end Inferx
