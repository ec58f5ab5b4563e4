import Inferx.Gateway.Agents

/-!
# Which agents a call retires

`GetClient` retires what it takes for the older versions of the function it is
called for. It compares texts: every live agent whose key starts with the joined
logical name of the route, and is not the route's own key, is retired. The joined
name ends with the name of the function and without a slash, so that the keys of
functions whose name goes on after it start with it too. `retires_own_iff` says
that such a function is the only way to go wrong.
-/

namespace Inferx.Gateway

/-- Agents as they are filed: under the key of a logical identity whose names can be
read off the key. -/
def Filed (agents : BTreeMap String FuncRouteTarget) : Prop :=
  ∀ (k : String) (r : FuncRouteTarget), agents[k]? = some r → k = r.agentKey ∧ r.logical.Plain

/-- **A call retires the other versions of its own function**, and no other agent. -/
def RetiresOwn (agents : BTreeMap String FuncRouteTarget) (route : FuncRouteTarget) : Prop :=
  ∀ (k : String) (r : FuncRouteTarget), agents[k]? = some r → ((getClient agents route).1[k]? = none ↔
    r.logical.name = route.logical.name ∧ r.logical.version ≠ route.logical.version)

/-- No live agent is for a function beside the route's own whose name goes on after
the name of the route's function. -/
def NoLongerName (agents : BTreeMap String FuncRouteTarget) (route : FuncRouteTarget) : Prop :=
  ∀ (k : String) (r : FuncRouteTarget), agents[k]? = some r → r.logical.tenant = route.logical.tenant →
    r.logical.nameSpace = route.logical.nameSpace →
    route.logical.funcname.toList <+: r.logical.funcname.toList →
    r.logical.funcname = route.logical.funcname

namespace FuncIdentity

variable {i j : FuncIdentity}

theorem namePrefix_toList : i.namePrefix.toList = i.tenant.toList ++ '/' ::
    (i.nameSpace.toList ++ '/' :: i.funcname.toList) := by
  simp [namePrefix, String.toList_append]

/-- What it means for a key to start with a joined name. -/
theorem prefix_key_iff (hi : i.Plain) (hj : j.Plain) :
    i.namePrefix.toList <+: j.key.toList ↔
      j.tenant = i.tenant ∧ j.nameSpace = i.nameSpace ∧ i.funcname.toList <+: j.funcname.toList := by
  rw [namePrefix_toList, key_toList]
  constructor
  · intro h
    obtain ⟨ht, h⟩ := List.part_of_prefix hi.1 hj.1 h
    obtain ⟨hn, h⟩ := List.part_of_prefix hi.2.1 hj.2.1 h
    exact ⟨(String.toList_inj.mp ht).symm, (String.toList_inj.mp hn).symm, (List.prefix_part_iff hi.2.2).mp h⟩
  · rintro ⟨ht, hn, hf⟩
    rw [ht, hn]
    refine (List.prefix_append_right_inj _).mpr (List.cons_prefix_cons.mpr ⟨rfl, ?_⟩)
    refine (List.prefix_append_right_inj _).mpr (List.cons_prefix_cons.mpr ⟨rfl, ?_⟩)
    exact (List.prefix_part_iff hi.2.2).mpr hf

end FuncIdentity

section Retired

variable {agents : BTreeMap String FuncRouteTarget} {route r : FuncRouteTarget} {k : String}

theorem getElem?_foldl_erase (l : List String) (m : BTreeMap String FuncRouteTarget) :
    (l.foldl Std.ExtTreeMap.erase m)[k]? = if k ∈ l then none else m[k]? := by
  induction l generalizing m with
  | nil => simp
  | cons a l ih =>
    rw [List.foldl_cons, ih, BTreeMap.get_erase]
    by_cases hl : k ∈ l
    · simp [hl]
    · by_cases ha : k = a
      · simp [ha]
      · simp [hl, ha]

/-- **What is retired**: the agents whose key starts with the joined name, but for the
route's own. -/
theorem retired_iff (h : agents[k]? = some r) : (getClient agents route).1[k]? = none ↔
    route.logical.namePrefix.toList <+: k.toList ∧ k ≠ route.agentKey := by
  have hstale : k ∈ agents.keys.filter (fun key =>
      (Strs.afterPrefix route.logical.namePrefix key).isSome && key != route.agentKey) ↔
      route.logical.namePrefix.toList <+: k.toList ∧ k ≠ route.agentKey := by
    have hk : k ∈ agents.keys := by
      rw [Std.ExtTreeMap.mem_keys, Std.ExtTreeMap.mem_iff_isSome_getElem?, h]
      rfl
    rw [List.mem_filter, Bool.and_eq_true, Strs.afterPrefix_isSome, bne_iff_ne]
    exact and_iff_right hk
  rw [← hstale]
  unfold getClient
  dsimp only
  split
  next =>
    rw [getElem?_foldl_erase, h]
    split
    next hin => exact iff_of_true rfl hin
    next hin => exact iff_of_false (Option.some_ne_none r) hin
  next hnone =>
    have hne : k ≠ route.agentKey := by
      rintro rfl
      rw [hnone] at h
      cases h
    rw [getElem?_foldl_erase, BTreeMap.get_insert_of_ne hne, h]
    split
    next hin => exact iff_of_true rfl hin
    next hin => exact iff_of_false (Option.some_ne_none r) hin

/-- **A call retires exactly the other versions of its function** when no live agent is
for a function with a longer name. -/
theorem retires_own_iff (hfiled : Filed agents) (hroute : route.logical.Plain) :
    RetiresOwn agents route ↔ NoLongerName agents route := by
  have hkey : ∀ (k : String) (r : FuncRouteTarget), agents[k]? = some r → ((getClient agents route).1[k]? = none ↔
      (r.logical.tenant = route.logical.tenant ∧ r.logical.nameSpace = route.logical.nameSpace ∧
        route.logical.funcname.toList <+: r.logical.funcname.toList) ∧ r.logical ≠ route.logical) := by
    intro k r hr
    obtain ⟨rfl, hplain⟩ := hfiled k r hr
    rw [retired_iff hr]
    refine and_congr (FuncIdentity.prefix_key_iff hroute hplain) (not_congr ?_)
    exact ⟨FuncIdentity.key_inj hplain hroute, fun h => congrArg FuncIdentity.key h⟩
  constructor
  · intro h k r hr ht hn hf
    by_contra hne
    have hdiff : r.logical ≠ route.logical := fun heq => hne (congrArg FuncIdentity.funcname heq)
    have hname := ((h k r hr).mp ((hkey k r hr).mpr ⟨⟨ht, hn, hf⟩, hdiff⟩)).1
    exact hne (congrArg FuncName.funcname hname)
  · intro h k r hr
    rw [hkey k r hr]
    constructor
    · rintro ⟨⟨ht, hn, hf⟩, hdiff⟩
      have hfunc := h k r hr ht hn hf
      refine ⟨by simp [FuncIdentity.name, ht, hn, hfunc], fun hversion => hdiff ?_⟩
      generalize r.logical = i at ht hn hfunc hversion
      generalize route.logical = j at ht hn hfunc hversion
      cases i
      cases j
      simp_all
    · rintro ⟨hname, hversion⟩
      obtain ⟨ht, hn, hf⟩ := FuncName.mk.inj hname
      refine ⟨⟨ht, hn, hf ▸ List.prefix_refl _⟩, fun heq => hversion (congrArg FuncIdentity.version heq)⟩

end Retired

/-- The route of `acme/prod`, to a function and a version of it. -/
def acmeRoute (funcname : String) (version : ℕ) : FuncRouteTarget :=
  resolveFunccallTarget "acme" "prod" funcname version

theorem acmeRoute_plain {funcname : String} (version : ℕ) (h : '/' ∉ funcname.toList) :
    (acmeRoute funcname version).logical.Plain := by
  have htenant : '/' ∉ "acme".toList := by decide
  have hns : '/' ∉ "prod".toList := by decide
  unfold acmeRoute resolveFunccallTarget
  split
  next => exact ⟨htenant, hns, h⟩
  next => exact ⟨htenant, hns, h⟩

/-- The agent of one route. -/
def acmeAgents (route : FuncRouteTarget) : BTreeMap String FuncRouteTarget :=
  (∅ : BTreeMap String FuncRouteTarget).insert route.agentKey route

theorem acmeAgents_eq {route r : FuncRouteTarget} {k : String}
    (h : (acmeAgents route)[k]? = some r) : k = route.agentKey ∧ r = route := by
  unfold acmeAgents at h
  rw [BTreeMap.get_insert] at h
  split at h
  next hk => exact ⟨hk, (Option.some.inj h).symm⟩
  next => simp at h

theorem acmeAgents_filed {funcname : String} {version : ℕ}
    (h : (acmeRoute funcname version).logical.Plain) : Filed (acmeAgents (acmeRoute funcname version)) := by
  intro k r hr
  obtain ⟨rfl, rfl⟩ := acmeAgents_eq hr
  exact ⟨rfl, h⟩

theorem retires_own_versions : RetiresOwn (acmeAgents (acmeRoute "llama" 3)) (acmeRoute "llama" 5) := by
  have hslash : '/' ∉ "llama".toList := by decide
  refine (retires_own_iff (acmeAgents_filed (acmeRoute_plain 3 hslash)) (acmeRoute_plain 5 hslash)).mpr ?_
  intro k r hr _ _ _
  obtain ⟨-, rfl⟩ := acmeAgents_eq hr
  rfl

/-- A call to `llama` retires the agent of `llama-70b`. -/
theorem longer_name_retired :
    ¬ ∀ (agents : BTreeMap String FuncRouteTarget) (route : FuncRouteTarget), Filed agents →
      route.logical.Plain → RetiresOwn agents route := by
  intro h
  have hown := h (acmeAgents (acmeRoute "llama-70b" 3)) (acmeRoute "llama" 3)
    (acmeAgents_filed (acmeRoute_plain 3 (by decide))) (acmeRoute_plain 3 (by decide))
  have hlive : (acmeAgents (acmeRoute "llama-70b" 3))[(acmeRoute "llama-70b" 3).agentKey]? =
      some (acmeRoute "llama-70b" 3) := BTreeMap.get_insert_self ..
  have hname := ((hown _ _ hlive).mp ((retired_iff hlive).mpr (by decide +kernel))).1
  exact absurd hname (by decide +kernel)

end Inferx.Gateway
