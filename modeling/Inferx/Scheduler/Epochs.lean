import Inferx.Scheduler.Homes

/-!
# A new epoch of a node

A node that shows up with another epoch is cleaned out: its pods are deleted one
by one, as their deletion would be reported, and the node leaves. `Cleaned` is
what holds at every point of this: the pods of other nodes and their filing are
as they were, and every deletion keeps the index coherent as long as no pod of
the node is parked for its function.
-/

namespace Inferx

open Proc SchedulerHandler

/-- Acts of a new epoch of the node `n`. -/
def CleanOf (s : SchedulerHandler) (n k : String) (act : Act) : Prop :=
  act = .removed ∧ ∃ w, s.pods[k]? = some w ∧ w.pod.nodename = n

/-- No pod of the node is parked for its function. -/
def NoneFuncParked (s : SchedulerHandler) (n : String) : Prop :=
  ∀ f k w, s.funcPods.getInner f k = some w → w.pod.nodename ≠ n

/-- Between `s` and `t`, only pods of the node `n` have been deleted. -/
structure Cleaned (n : String) (s t : SchedulerHandler) : Prop where
  /-- the index is sound -/
  sound : t.index.Sound
  /-- no pod has come -/
  sub : ∀ (k : String) (w : WorkerPod), t.pods[k]? = some w → s.pods[k]? = some w
  /-- the pods of other nodes are there -/
  other : ∀ (k : String) (w : WorkerPod), s.pods[k]? = some w → w.pod.nodename ≠ n →
    t.pods[k]? = some w
  /-- other nodes are known if they were, and hold what they held -/
  known : ∀ q, q ≠ n → t.index.byNode.known q = s.index.byNode.known q
  /-- the same for what is parked for them -/
  entry : ∀ q a, q ≠ n → t.index.byNode.entry q a = s.index.byNode.entry q a
  /-- the pods parked for functions are as they were -/
  parked : t.index.byFunc.parked = s.index.byFunc.parked
  /-- functions hold and parked pods are tracked if they were -/
  func_sound : NoneFuncParked s n → s.index.byFunc.Sound s.pods WorkerPod.func →
    t.index.byFunc.Sound t.pods WorkerPod.func
  /-- known functions hold all their pods if they did -/
  func_full : s.index.byFunc.Full s.pods WorkerPod.func → t.index.byFunc.Full t.pods WorkerPod.func
  /-- functions hold all tracked pods if they did -/
  func : s.index.byFunc.Complete s.pods WorkerPod.func →
    t.index.byFunc.Complete t.pods WorkerPod.func
  /-- nothing has been handed out -/
  grants : t.grants = s.grants
  /-- what happened to the pods -/
  path : ∀ k, Path (CleanOf s n k) (s.slot k) (t.slot k)

namespace Cleaned

variable {n : String} {s t u : SchedulerHandler}

theorem refl (hs : s.index.Sound) : Cleaned n s s where
  sound := hs
  sub _ _ h := h
  other _ _ h _ := h
  known _ _ := rfl
  entry _ _ _ := rfl
  parked := rfl
  func_sound _ h := h
  func_full h := h
  func h := h
  grants := rfl
  path _ := Path.refl _ _

/-- Bookkeeping does not matter. -/
theorem of_life (h : Cleaned n s t) (hlife : u.life = t.life) : Cleaned n s u := by
  obtain ⟨hindex, hgrants, hslot⟩ := life_eq.mp hlife
  have hpods : u.pods = t.pods := pods_of_index hindex
  refine ⟨hindex ▸ h.sound, fun k w hw => h.sub k w (hpods ▸ hw),
    fun k w hw hn => hpods ▸ h.other k w hw hn, ?_, ?_, ?_, fun hnone hf => ?_, fun hf => ?_,
    fun hf => ?_, hgrants.trans h.grants, ?_⟩
  · rw [hindex]
    exact h.known
  · rw [hindex]
    exact h.entry
  · rw [hindex]
    exact h.parked
  · rw [hindex, hpods]
    exact h.func_sound hnone hf
  · rw [hindex, hpods]
    exact h.func_full hf
  · rw [hindex, hpods]
    exact h.func hf
  · rw [hslot]
    exact h.path

/-- What is parked for the node goes. -/
theorem unpark (hs : s.index.Sound) (hlife : t.life = (s.index.unparkNode n, s.grants, s.slot)) :
    Cleaned n s t := by
  obtain ⟨hindex, hgrants, hslot⟩ := life_eq.mp hlife
  have hpods : t.pods = s.pods := congrArg PodIndex.pods hindex
  refine ⟨hindex ▸ hs.unparkNode n, fun k w hw => hpods ▸ hw, fun k w hw _ => hpods ▸ hw, ?_, ?_,
    ?_, fun _ hf => ?_, fun hf => ?_, fun hf => ?_, hgrants, fun k => ?_⟩
  · rw [hindex]
    exact fun _ _ => rfl
  · intro q a hq
    rw [hindex]
    show (s.index.byNode.unpark n).entry q a = _
    unfold Filing.unpark Filing.entry
    rw [BTreeMap.getInner_erase, if_neg hq]
  · rw [hindex]
    rfl
  · rw [hindex, hpods]
    exact hf
  · rw [hindex, hpods]
    exact hf
  · rw [hindex, hpods]
    exact hf
  · rw [hslot]
    exact Path.refl _ _

/-- One pod of the node is deleted. -/
theorem untrack (h : Cleaned n s t) {w : WorkerPod} (hw : t.pods[w.pod.podKey]? = some w)
    (hn : w.pod.nodename = n)
    (hlife : u.life = (t.index.untrack w.pod, t.grants,
      Function.update t.slot w.pod.podKey ⟨none, false⟩)) : Cleaned n s u := by
  obtain ⟨hindex, hgrants, hslot⟩ := life_eq.mp hlife
  have hpods : u.pods = t.pods.erase w.pod.podKey := congrArg PodIndex.pods hindex
  have hhome : t.index.SameHome w.pod := by
    intro v hv
    rw [Option.some.inj (hv.symm.trans hw)]
    exact ⟨rfl, rfl⟩
  refine ⟨hindex ▸ h.sound.untrack hhome, fun k v hv => ?_, fun k v hv hvn => ?_,
    fun q hq => ?_, fun q a hq => ?_, ?_, fun hnone hf => ?_, fun hf => ?_, fun hf => ?_,
    hgrants.trans h.grants, fun k => ?_⟩
  · rw [hpods] at hv
    exact h.sub k v (BTreeMap.get_erase_eq_some.mp hv).2
  · have ht := h.other k v hv hvn
    rw [hpods]
    refine BTreeMap.get_erase_eq_some.mpr ⟨fun hk => hvn ?_, ht⟩
    rw [hk, hw] at ht
    rw [← Option.some.inj ht]
    exact hn
  · rw [hindex]
    show Function.update t.index.byNode.known w.pod.nodename _ q = _
    rw [Function.update_of_ne (hn ▸ hq)]
    exact h.known q hq
  · rw [hindex]
    show (t.index.byNode.unfile w.pod.nodename w.pod.podKey).entry q a = _
    rw [Filing.entry_unfile_of_ne (Or.inl (hn ▸ hq))]
    exact h.entry q a hq
  · rw [hindex]
    exact h.parked
  · -- the pod is not parked for its function, or it would be parked in `s` too
    rw [hindex, hpods]
    refine (h.func_sound hnone hf).unfile (fun hunknown => ?_) fun v hv => (hhome v hv).2
    rcases hv : t.index.byFunc.parked.getInner w.pod.funcKey w.pod.podKey with _ | v
    · rfl
    · have htracked := (h.func_sound hnone hf _ _ v
        ((Filing.entry_of_unknown hunknown).trans hv)).1
      have hvw : v = w := Option.some.inj (htracked.symm.trans hw)
      rw [h.parked] at hv
      exact absurd (hvw ▸ hn) (hnone _ _ v hv)
  · rw [hindex, hpods]
    exact (h.func_full hf).unfile
  · rw [hindex, hpods]
    exact (h.func hf).unfile
  · refine (h.path k).trans ?_
    rw [hslot, Function.update_apply]
    split
    next hk =>
      rw [hk]
      refine Path.single ⟨rfl, w, h.sub _ _ hw, hn⟩ ?_
      rw [slot_of_tracked hw]
      exact .removed
    next => exact Path.refl _ _

/-- The node leaves. -/
theorem leave (h : Cleaned n s t) (hn : (t.index.byNode.known n).isSome)
    (hlife : u.life = (t.index.leaveNode n, t.grants, t.slot)) : Cleaned n s u := by
  obtain ⟨hindex, hgrants, hslot⟩ := life_eq.mp hlife
  have hpods : u.pods = t.pods := congrArg PodIndex.pods hindex
  refine ⟨hindex ▸ h.sound.leaveNode n, fun k w hw => h.sub k w (hpods ▸ hw),
    fun k w hw hne => hpods ▸ h.other k w hw hne, fun q hq => ?_, fun q a hq => ?_, ?_,
    fun hnone hf => ?_, fun hf => ?_, fun hf => ?_, hgrants.trans h.grants, fun k => ?_⟩
  · rw [hindex]
    show Function.update t.index.byNode.known n none q = _
    rw [Function.update_of_ne hq]
    exact h.known q hq
  · rw [hindex]
    show (t.index.byNode.leave n).entry q a = _
    rw [Filing.entry_leave h.sound.node_tidy hn, if_neg hq]
    exact h.entry q a hq
  · rw [hindex]
    exact h.parked
  · rw [hindex, hpods]
    exact h.func_sound hnone hf
  · rw [hindex, hpods]
    exact h.func_full hf
  · rw [hindex, hpods]
    exact h.func hf
  · rw [hslot]
    exact h.path k

end Cleaned

/-- The loop over the pods of a node. -/
theorem removePods_spec (env : Env) {n : String} {s t : SchedulerHandler} (h : Cleaned n s t)
    {m : BTreeMap String WorkerPod}
    (hm : ∀ (k : String) (w : WorkerPod), m[k]? = some w →
      t.pods[k]? = some w ∧ w.pod.nodename = n) :
    (removePods env m).wp
      (fun _ u => Cleaned n s u ∧ (∀ (k : String) (w : WorkerPod), m[k]? = some w → u.pods[k]? = none) ∧
        (u.index.byNode.known n = none ↔ t.index.byNode.known n = none) ∧
        u.index.byNode.parked = t.index.byNode.parked ∧
        ∀ k : String, u.pods[k]? = none ∨
          u.pods[k]? = t.pods[k]? ∧ u.index.byNode.entry n k = t.index.byNode.entry n k)
      (fun _ _ => False) Calm t := by
  unfold removePods
  -- the pods on the list are still there, those that have been met are gone
  let I : List (String × WorkerPod) → SchedulerHandler → Prop := fun l u =>
    Cleaned n s u ∧ (l.map Prod.fst).Nodup ∧
      (∀ p ∈ l, u.pods[p.1]? = some p.2 ∧ p.2.pod.nodename = n) ∧
      (∀ (k : String) (w : WorkerPod), m[k]? = some w → (k, w) ∈ l ∨ u.pods[k]? = none) ∧
      (u.index.byNode.known n = none ↔ t.index.byNode.known n = none) ∧
      u.index.byNode.parked = t.index.byNode.parked ∧
      ∀ k : String, u.pods[k]? = none ∨
        u.pods[k]? = t.pods[k]? ∧ u.index.byNode.entry n k = t.index.byNode.entry n k
  have hstart : I m.toList t := by
    refine ⟨h, ?_, fun p hp => hm p.1 p.2 (BTreeMap.mem_toList.mp hp),
      fun k w hw => Or.inl (BTreeMap.mem_toList.mpr hw), Iff.rfl, rfl,
      fun _ => Or.inr ⟨rfl, rfl⟩⟩
    rw [List.Nodup, List.pairwise_map]
    refine Std.ExtTreeMap.distinct_keys_toList.imp ?_
    intro a b hne hab
    exact hne (by rw [hab]; exact Std.compare_self)
  refine wp_mono (wp_each (I := I) ?_ m.toList t hstart) (fun _ u hu => ?_) (fun _ _ h => h)
    fun _ h => h
  · rintro ⟨k, w⟩ l u ⟨hu, hnodup, hl, hgone, hknown, hparked, hother⟩
    obtain ⟨hw, hn⟩ := hl (k, w) (List.mem_cons_self ..)
    have hkey : w.pod.podKey = k := hu.sound.key k w hw
    subst hkey
    obtain ⟨hk, hnodup⟩ := List.nodup_cons.mp hnodup
    rw [wp_ignore]
    refine wp_mono (removePod_spec env w.pod (s := u)) (fun _ v hv => ?_) (fun _ _ h => h.elim)
      fun p hp => ?_
    · have hpods : v.pods = u.pods.erase w.pod.podKey := congrArg (fun l => l.1.pods) hv.2
      have hnode : v.index.byNode = u.index.byNode.unfile w.pod.nodename w.pod.podKey :=
        congrArg (fun l => l.1.byNode) hv.2
      refine ⟨hu.untrack hw hn hv.2, hnodup, fun p hp => ?_, fun a x hx => ?_, ?_, ?_,
        fun a => ?_⟩
      · obtain ⟨hpu, hpn⟩ := hl p (List.mem_cons_of_mem _ hp)
        refine ⟨?_, hpn⟩
        rw [hpods]
        refine BTreeMap.get_erase_eq_some.mpr ⟨fun hpk => hk ?_, hpu⟩
        exact List.mem_map.mpr ⟨p, hp, hpk⟩
      · rw [hpods, BTreeMap.get_erase]
        rcases hgone a x hx with hmem | hnone'
        · rcases List.mem_cons.mp hmem with heq | hmem
          · exact Or.inr (if_pos (Prod.mk.inj heq).1)
          · exact Or.inl hmem
        · exact Or.inr (by rw [hnone', ite_self])
      · rw [hnode]
        show Function.update u.index.byNode.known w.pod.nodename _ n = none ↔ _
        rw [hn, Function.update_self, Option.map_eq_none_iff]
        exact hknown
      · rw [hnode]
        exact hparked
      · rw [hpods, BTreeMap.get_erase]
        split
        next => exact Or.inl rfl
        next ha =>
          rw [hnode, Filing.entry_unfile_of_ne (Or.inr ha)]
          exact hother a
    · rcases hp with hp | ⟨-, hp⟩
      · exact hp
      · rw [hw] at hp
        cases hp
  · obtain ⟨hu, -, -, hgone, hknown, hparked, hother⟩ := hu
    refine ⟨hu, fun k w hw => ?_, hknown, hparked, hother⟩
    exact (hgone k w hw).resolve_left List.not_mem_nil

/-- The node `n` has been cleaned out. -/
structure Emptied (n : String) (s t : SchedulerHandler) : Prop extends Cleaned n s t where
  /-- the pods it held have gone -/
  gone : ∀ k w, s.index.byNode.entry n k = some w → t.pods[k]? = none
  /-- nothing is parked for it -/
  unparked : ∀ k, t.index.byNode.parked.getInner n k = none
  /-- it is not known -/
  unknown : t.index.byNode.known n = none

namespace Emptied

variable {n : String} {s t u : SchedulerHandler}

theorem of_life (h : Emptied n s t) (hlife : u.life = t.life) : Emptied n s u :=
  ⟨h.toCleaned.of_life hlife, fun k w hw => pods_of_index (index_of_life hlife) ▸ h.gone k w hw,
    index_of_life hlife ▸ h.unparked, index_of_life hlife ▸ h.unknown⟩

theorem full (h : Emptied n s t) (hs : s.index.Full) : t.index.Full where
  node := by
    intro k w m hw hm
    have hn : w.node ≠ n := by
      intro hn
      rw [hn, h.unknown] at hm
      cases hm
    rw [h.known _ hn] at hm
    exact hs.node k w m (h.sub k w hw) hm
  func := h.func_full hs.func

/-- Cleaning a node out keeps the index coherent. -/
theorem coherent (h : Emptied n s t) (hs : s.index.Coherent) (hnone : NoneFuncParked s n) :
    t.index.Coherent where
  node_sound := by
    intro q k w hw
    by_cases hq : q = n
    · subst hq
      rw [Filing.entry_of_unknown h.unknown, h.unparked] at hw
      cases hw
    · rw [h.entry q k hq] at hw
      obtain ⟨hall, hnode⟩ := hs.node_sound q k w hw
      exact ⟨h.other k w hall fun hn => hq (hnode.symm.trans hn), hnode⟩
  func_sound := h.func_sound hnone hs.func_sound
  node := by
    intro k w hw
    have hentry := hs.node k w (h.sub k w hw)
    by_cases hn : w.node = n
    · rw [hn] at hentry
      exact absurd ((h.gone k w hentry).symm.trans hw) nofun
    · rw [h.entry _ _ hn]
      exact hentry
  func := h.func hs.func

end Emptied

theorem cleanNode_spec (env : Env) (n : String) {s : SchedulerHandler} (hs : s.index.Sound)
    (hpark : s.index.NodeArrivable n) :
    (cleanNode env n).wp (fun _ t => Emptied n s t) (fun _ _ => False) Calm s := by
  unfold cleanNode
  rw [wp_bind, wp_get, wp_bind, wp_modify, wp_bind]
  have hunpark : Cleaned n s { s with nodePods := s.nodePods.erase n } := Cleaned.unpark hs rfl
  refine wp_mono (removePods_spec env hunpark (fun k w hw => ?_)) ?_ (fun _ _ h => h) fun _ h => h
  · rw [BTreeMap.get_getD] at hw
    exact hpark k w hw
  rintro - t ⟨ht, hgone, hknown, hparked, hsub⟩
  rw [wp_bind, wp_modify, wp_bind, wp_get, wp_bind]
  have hlife := life_cleanFuncStatusForNode (s := t) n
  have hindex : (t.cleanFuncStatusForNode n).index = t.index := index_of_life hlife
  have hpods := pods_of_index hindex
  refine wp_mono (removePods_spec env (ht.of_life hlife) (fun k w hw => ?_)) ?_ (fun _ _ h => h)
    fun _ h => h
  · unfold podsOfNode at hw
    split at hw
    next => simp at hw
    next ns hns => exact tracked_of_nodePods (ht.of_life hlife).sound hns hw
  rintro - u ⟨hu, hgone', -, hparked', hsub'⟩
  have hunparked : ∀ k, u.index.byNode.parked.getInner n k = none := by
    intro k
    rw [hparked', hindex, hparked]
    show BTreeMap.getInner (s.nodePods.erase n) n k = none
    rw [BTreeMap.getInner_erase, if_pos rfl]
  have hempty : ∀ k w, s.index.byNode.entry n k = some w → u.pods[k]? = none := by
    intro k w hw
    rcases hk : s.index.byNode.known n with _ | m
    · -- the node is not known, and its pods were parked
      rw [Filing.entry_of_unknown hk] at hw
      have hnonet : t.pods[k]? = none := by
        refine hgone k w ?_
        rw [BTreeMap.get_getD]
        exact hw
      rcases hsub' k with hnone' | ⟨heq, -⟩
      · exact hnone'
      · rw [heq, hpods, hnonet]
    · -- the node is known, and its record held the pods
      rcases hsub k with hnonet | ⟨-, heq⟩
      · rcases hsub' k with hnone' | ⟨heq, -⟩
        · exact hnone'
        · rw [heq, hpods, hnonet]
      · have hentry : t.index.byNode.entry n k = some w := by
          rw [heq]
          show (s.index.byNode.unpark n).entry n k = some w
          rw [Filing.entry_unpark (by rw [hk]; rfl)]
          exact hw
        refine hgone' k w ?_
        rcases hns : (t.cleanFuncStatusForNode n).nodes[n]? with _ | ns
        · have hunknown : t.index.byNode.known n = none := hindex ▸ unknown_node hns
          have hk' : s.index.byNode.known n = none := hknown.mp hunknown
          exact absurd (hk'.symm.trans hk) nofun
        · unfold podsOfNode
          rw [hns]
          rw [← hindex, Filing.entry_of_known (F := (t.cleanFuncStatusForNode n).index.byNode) (known_node hns)] at hentry
          exact hentry
  rw [wp_bind, wp_modify, wp_bind, wp_get]
  have hforget := life_forgetSnapshotsOn (s := u) n
  have hindexu : (u.forgetSnapshotsOn n).index = u.index := index_of_life hforget
  have hclean : Cleaned n s (u.forgetSnapshotsOn n) := hu.of_life hforget
  rcases hns : (u.forgetSnapshotsOn n).nodes[n]? with _ | ns
  · refine ⟨hclean, fun k w hw => ?_, hindexu ▸ hunparked, unknown_node hns⟩
    rw [pods_of_index hindexu]
    exact hempty k w hw
  · dsimp only
    rw [wp_ignore]
    have hname : ns.node.name = n :=
      hclean.sound.named n _ (congrArg (Option.map fun ns : NodeStatus => ns.node.name) hns)
    refine wp_mono (removeNode_spec ns.node (u.forgetSnapshotsOn n)) (fun _ v hv => ?_)
      (fun _ _ hv => ?_) fun _ h => h.elim
    · rw [hname] at hv
      obtain ⟨hindexv, -, -⟩ := life_eq.mp hv.2
      refine ⟨hclean.leave hv.1 hv.2, fun k w hw => ?_, fun k => ?_, ?_⟩
      · have hpodsv : v.pods = u.pods := by
          rw [← pods_of_index hindexu]
          exact congrArg PodIndex.pods hindexv
        rw [hpodsv]
        exact hempty k w hw
      · rw [hindexv, hindexu]
        exact hunparked k
      · rw [hindexv]
        exact Function.update_self ..
    · have hknownu := hv.2
      rw [hname, known_node hns] at hknownu
      cases hknownu

/-- A node shows up with an epoch that is not the one it had. -/
def NewEpoch (s : SchedulerHandler) (n : String) (epoch : ℤ) : Prop :=
  ∃ old, s.nodeEpoch[n]? = some old ∧ old ≠ epoch

instance (s : SchedulerHandler) (n : String) (epoch : ℤ) : Decidable (NewEpoch s n epoch) :=
  decidable_of_iff (s.nodeEpoch[n]?.any fun old => old ≠ epoch) (by
    unfold NewEpoch
    rcases s.nodeEpoch[n]? with _ | old
    · simp
    · simp)

/-- **Checking the epoch.** Nothing happens to the pods, or the epoch is new and
the node is cleaned out. -/
theorem checkNodeEpoch_spec (env : Env) (n : String) (epoch : ℤ) {s : SchedulerHandler}
    (hs : s.index.Sound) (hpark : NewEpoch s n epoch → s.index.NodeArrivable n) :
    (checkNodeEpoch env n epoch).wp
      (fun _ t => ¬ NewEpoch s n epoch ∧ t.life = s.life ∨ NewEpoch s n epoch ∧ Emptied n s t)
      (fun _ _ => False) Calm s := by
  unfold checkNodeEpoch
  rw [wp_bind, wp_get]
  rcases hold : s.nodeEpoch[n]? with _ | old
  · refine Or.inl ⟨fun ⟨old, h, _⟩ => ?_, rfl⟩
    exact absurd (hold.symm.trans h) nofun
  · dsimp only
    split
    next heq =>
      refine Or.inl ⟨fun ⟨old', h, hne⟩ => hne ?_, rfl⟩
      rw [← Option.some.inj (hold.symm.trans h)]
      exact heq
    next hne =>
      have hnew : NewEpoch s n epoch := ⟨old, hold, hne⟩
      rw [wp_bind]
      refine wp_mono (cleanNode_spec env n hs (hpark hnew)) (fun _ t ht => ?_) (fun _ _ h => h)
        fun _ h => h
      exact Or.inr ⟨hnew, ht.of_life rfl⟩

end Inferx
