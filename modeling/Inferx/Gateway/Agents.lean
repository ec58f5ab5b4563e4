import Mathlib
import Inferx.Lib.Map
import Inferx.Lib.Keys
import Inferx.Lib.Runs
import Inferx.Lib.Strs

/-!
# Agents and routes

The gateway keeps one agent for each logical identity of a function. A call
through `/funccall` or `/skills` is turned into a route with a logical identity,
the physical function that serves it and possibly a calling tenant, and
`GetClient` takes the agent that is filed under the text of the logical
identity. That text joins names which different tenants choose, and skills join
several names with dots. It also has the version of the function, and a version
is the revision of a write to etcd that was made for this function alone; with it
the text tells routes apart (`route_of_key`), and so no call is ever given to the
agent of another function, payer or caller (`served_by_own_agent`).

The policy and the function object of a route are left out.
-/

namespace Inferx.Gateway

def virtualEndpointsNamespace : String := "endpoints"
def platformTenant : String := "inferx"
def platformSharedNamespace : String := "endpoint"
def skillsNamespace : String := "skills"

/-- A function of a namespace. -/
structure FuncName where
  tenant : String
  nameSpace : String
  funcname : String
  deriving DecidableEq, Repr

/-- A function with its version. -/
structure FuncIdentity where
  tenant : String
  nameSpace : String
  funcname : String
  version : ℕ
  deriving DecidableEq, Repr

namespace FuncIdentity

/-- `FuncIdentity::Prefix` -/
def namePrefix (i : FuncIdentity) : String := i.tenant ++ "/" ++ i.nameSpace ++ "/" ++ i.funcname

/-- `FuncIdentity::Key` -/
def key (i : FuncIdentity) : String :=
  i.tenant ++ "/" ++ i.nameSpace ++ "/" ++ i.funcname ++ "/" ++ toString i.version

def name (i : FuncIdentity) : FuncName := ⟨i.tenant, i.nameSpace, i.funcname⟩

end FuncIdentity

/-- Where a call goes. -/
structure FuncRouteTarget where
  logical : FuncIdentity
  physical : FuncIdentity
  callerTenant : Option String
  deriving DecidableEq, Repr

namespace FuncRouteTarget

def agentKey (r : FuncRouteTarget) : String := r.logical.key

/-- Who pays: the agent bills its logical tenant. -/
def payer (r : FuncRouteTarget) : String := r.logical.tenant

/-- Who calls: the payer, unless the owner of a skill pays for another tenant. -/
def caller (r : FuncRouteTarget) : String := r.callerTenant.getD r.logical.tenant

end FuncRouteTarget

/-! ## Calls -/

/-- A skill, as far as its route depends on it. -/
structure SkillRow where
  ownerTenant : String
  funcTenant : String
  funcNamespace : String
  /-- the function with or without cache, whichever the skill uses -/
  funcname : String
  /-- `gpu_billing_target` is `owner` -/
  ownerBilled : Bool
  deriving DecidableEq, Repr

/-- A call, with the version that the gateway finds for the function. -/
inductive Call where
  | funccall (tenant nameSpace funcname : String) (version : ℕ)
  | skillcall (skill : SkillRow) (callingTenant : String) (version : ℕ)
  deriving DecidableEq, Repr

/-- `resolve_funccall_target` -/
def resolveFunccallTarget (tenant nameSpace funcname : String) (version : ℕ) : FuncRouteTarget :=
  if nameSpace ≠ virtualEndpointsNamespace then
    { logical := ⟨tenant, nameSpace, funcname, version⟩
      physical := ⟨tenant, nameSpace, funcname, version⟩
      callerTenant := none }
  else
    { logical := ⟨tenant, nameSpace, funcname, version⟩
      physical := ⟨platformTenant, platformSharedNamespace, funcname, version⟩
      callerTenant := none }

namespace SkillRow

variable (skill : SkillRow)

def baseFuncname : String := skill.funcTenant ++ "." ++ skill.funcNamespace ++ "." ++ skill.funcname

/-- A caller-billed skill on the platform's endpoint uses the caller's own endpoint. -/
def collapsesOntoEndpoint : Bool :=
  !skill.ownerBilled && skill.funcTenant == platformTenant &&
    skill.funcNamespace == platformSharedNamespace

/-- The route of `SkillCall` -/
def route (callingTenant : String) (version : ℕ) : FuncRouteTarget where
  logical :=
    if skill.collapsesOntoEndpoint then
      ⟨callingTenant, virtualEndpointsNamespace, skill.funcname, version⟩
    else if skill.ownerBilled then
      ⟨skill.ownerTenant, skillsNamespace, skill.baseFuncname ++ "." ++ callingTenant, version⟩
    else ⟨callingTenant, skillsNamespace, skill.baseFuncname, version⟩
  physical := ⟨skill.funcTenant, skill.funcNamespace, skill.funcname, version⟩
  callerTenant :=
    if skill.collapsesOntoEndpoint then none
    else if skill.ownerBilled then some callingTenant
    else none

end SkillRow

/-- The characters of `validate_name`. -/
def validName (s : String) : Bool :=
  s.toList.all fun c => (c.isAlphanum || c == '-' || c == '_' || c == '.')

namespace Call

def route : Call → FuncRouteTarget
  | .funccall tenant ns f v => resolveFunccallTarget tenant ns f v
  | .skillcall skill callingTenant v => skill.route callingTenant v

/-- All names are valid. -/
def Valid : Call → Prop
  | .funccall tenant ns f _ => validName tenant ∧ validName ns ∧ validName f
  | .skillcall skill callingTenant _ =>
    validName skill.ownerTenant ∧ validName skill.funcTenant ∧ validName skill.funcNamespace ∧
      validName skill.funcname ∧ validName callingTenant

instance : DecidablePred Valid := fun c => match c with
  | .funccall tenant ns f _ =>
    inferInstanceAs (Decidable (validName tenant ∧ validName ns ∧ validName f))
  | .skillcall skill callingTenant _ =>
    inferInstanceAs (Decidable (validName skill.ownerTenant ∧ validName skill.funcTenant ∧
      validName skill.funcNamespace ∧ validName skill.funcname ∧ validName callingTenant))

end Call

/-! ## The gateway -/

/-- The state: the revisions of etcd so far, each with the function it was taken
for as a version, the agents by key, with the route each was made for, and the
calls served so far, with the route of the agent that was used. -/
structure AgentState where
  revisions : List (Option FuncName)
  agents : BTreeMap String FuncRouteTarget
  served : List (FuncRouteTarget × FuncRouteTarget)

/-- The start: no revision, no agent. -/
def AgentState.empty : AgentState := ⟨[], ∅, []⟩

/-- The version belongs to the function. -/
def AgentState.Issued (s : AgentState) (name : FuncName) (version : ℕ) : Prop :=
  s.revisions[version]? = some (some name)

/-- The lookup of `GetClient`: the agents that are left, and the route of the agent used.
Agents of the same name with another key are retired. -/
def getClient (agents : BTreeMap String FuncRouteTarget) (route : FuncRouteTarget) :
    BTreeMap String FuncRouteTarget × FuncRouteTarget :=
  let stale := agents.keys.filter fun key =>
    (Strs.afterPrefix route.logical.namePrefix key).isSome && key != route.agentKey
  match agents[route.agentKey]? with
  | some agent => (stale.foldl Std.ExtTreeMap.erase agents, agent)
  | none => (stale.foldl Std.ExtTreeMap.erase (agents.insert route.agentKey route), route)

/-- What can happen next. -/
inductive AgentInput where
  /-- some other write to etcd -/
  | write
  /-- `Uid` for the creation or the update of a function -/
  | uid (name : FuncName)
  /-- a call -/
  | call (c : Call)
  /-- an agent is retired for another reason -/
  | retire (key : String)

def AgentState.next (s : AgentState) : AgentInput → Option AgentState
  | .write => some { s with revisions := s.revisions ++ [none] }
  | .uid name => some { s with revisions := s.revisions ++ [some name] }
  | .call c =>
    some { s with agents := (getClient s.agents c.route).1
                  served := s.served ++ [(c.route, (getClient s.agents c.route).2)] }
  | .retire key => some { s with agents := s.agents.erase key }

/-- A call has valid names, and the gateway has seen the function with the version. -/
def AgentState.Admits (s : AgentState) : AgentInput → Prop
  | .call c => c.Valid ∧ s.Issued c.route.physical.name c.route.physical.version
  | _ => True

/-! ## The key tells routes apart -/

theorem slash_not_mem_of_validName {s : String} (h : validName s = true) : '/' ∉ s.toList := by
  intro hmem
  have hc := List.all_eq_true.mp h '/' hmem
  exact absurd hc (by decide)

/-- An identity whose names can be read off its key. -/
def FuncIdentity.Plain (i : FuncIdentity) : Prop :=
  '/' ∉ i.tenant.toList ∧ '/' ∉ i.nameSpace.toList ∧ '/' ∉ i.funcname.toList

theorem FuncIdentity.key_toList (i : FuncIdentity) : i.key.toList = i.tenant.toList ++ '/' ::
    (i.nameSpace.toList ++ '/' :: (i.funcname.toList ++ '/' :: (toString i.version).toList)) := by
  simp [key, String.toList_append]

/-- A key is the key of one identity only. -/
theorem FuncIdentity.key_inj {i j : FuncIdentity} (hi : i.Plain) (hj : j.Plain)
    (h : i.key = j.key) : i = j := by
  rw [← String.toList_inj, key_toList, key_toList] at h
  obtain ⟨ht, h⟩ := Strs.part_of_eq hi.1 hj.1 h
  obtain ⟨hn, h⟩ := Strs.part_of_eq hi.2.1 hj.2.1 h
  obtain ⟨hf, h⟩ := Strs.part_of_eq hi.2.2 hj.2.2 h
  have hv : i.version = j.version := Nat.repr_injective (String.toList_inj.mp h)
  cases i
  cases j
  simp_all [String.toList_inj]

namespace SkillRow

variable {skill : SkillRow}

theorem baseFuncname_toList : skill.baseFuncname.toList = skill.funcTenant.toList ++ '.' ::
    (skill.funcNamespace.toList ++ '.' :: skill.funcname.toList) := by
  simp [baseFuncname, String.toList_append]

end SkillRow

theorem Call.plain {c : Call} (h : c.Valid) : c.route.logical.Plain := by
  have hskills : '/' ∉ skillsNamespace.toList := by decide
  have hends : '/' ∉ virtualEndpointsNamespace.toList := by decide
  cases c with
  | funccall t n f v =>
    obtain ⟨ht, hn, hf⟩ := h
    have hplain : FuncIdentity.Plain ⟨t, n, f, v⟩ := ⟨slash_not_mem_of_validName ht,
      slash_not_mem_of_validName hn, slash_not_mem_of_validName hf⟩
    simp only [route, resolveFunccallTarget]
    split <;> exact hplain
  | skillcall skill ct v =>
    obtain ⟨ho, ht, hn, hf, hc⟩ := h
    have hbase : '/' ∉ skill.baseFuncname.toList := by
      rw [SkillRow.baseFuncname_toList]
      simp [slash_not_mem_of_validName ht, slash_not_mem_of_validName hn,
        slash_not_mem_of_validName hf]
    simp only [route, SkillRow.route]
    split
    next => exact ⟨slash_not_mem_of_validName hc, hends, slash_not_mem_of_validName hf⟩
    next =>
      split
      next =>
        refine ⟨slash_not_mem_of_validName ho, hskills, ?_⟩
        simp [String.toList_append, hbase, slash_not_mem_of_validName hc]
      next => exact ⟨slash_not_mem_of_validName hc, hskills, hbase⟩

/-- The version of a route is the version of its function. -/
theorem Call.route_version (c : Call) : c.route.logical.version = c.route.physical.version := by
  cases c with
  | funccall t n f v =>
    simp only [route, resolveFunccallTarget]
    split <;> rfl
  | skillcall skill ct v =>
    simp only [route, SkillRow.route]
    split
    next => rfl
    next => split <;> rfl

/-- The calling tenant that is written into a route stands at the end of its
logical name, behind the name of the function. -/
theorem Call.callerTenant_eq_some {c : Call} {x : String} (h : c.route.callerTenant = some x) :
    c.route.logical.nameSpace = skillsNamespace ∧
    c.route.logical.funcname = c.route.physical.tenant ++ "." ++ c.route.physical.nameSpace ++ "." ++
      c.route.physical.funcname ++ "." ++ x := by
  cases c with
  | funccall t n f v =>
    simp only [route, resolveFunccallTarget] at h
    split at h <;> cases h
  | skillcall skill ct v =>
    simp only [route, SkillRow.route] at h ⊢
    split at h
    next => cases h
    next hcol =>
      split at h
      next howner =>
        obtain rfl := Option.some.inj h
        rw [if_neg hcol, if_pos howner]
        exact ⟨rfl, rfl⟩
      next => cases h

/-- A route of the skills namespace without a calling tenant has a logical name
no longer than the joined name of its function. -/
theorem Call.length_of_callerTenant_none {c : Call} (h : c.route.callerTenant = none)
    (hns : c.route.logical.nameSpace = skillsNamespace) :
    c.route.logical.funcname.length ≤ (c.route.physical.tenant ++ "." ++
      c.route.physical.nameSpace ++ "." ++ c.route.physical.funcname).length := by
  have hdiff : virtualEndpointsNamespace ≠ skillsNamespace := by decide
  cases c with
  | funccall t n f v =>
    simp only [route, resolveFunccallTarget] at h hns ⊢
    split at hns
    next hne =>
      rw [if_pos hne]
      simp only [String.length_append]
      omega
    next heq =>
      rw [not_not] at heq
      rw [heq] at hns
      exact absurd hns hdiff
  | skillcall skill ct v =>
    simp only [route, SkillRow.route] at h hns ⊢
    split at hns
    next => exact absurd hns hdiff
    next hcol =>
      split at hns
      next howner => simp [hcol, howner] at h
      next howner =>
        rw [if_neg hcol, if_neg howner]
        exact le_refl _

/-- **A key stands for one function, payer and caller.** -/
theorem route_of_key {c d : Call} {s : AgentState} (hc : c.Valid) (hd : d.Valid)
    (hci : s.Issued c.route.physical.name c.route.physical.version)
    (hdi : s.Issued d.route.physical.name d.route.physical.version)
    (hkey : c.route.agentKey = d.route.agentKey) : c.route = d.route := by
  have hlogical : c.route.logical = d.route.logical :=
    FuncIdentity.key_inj (Call.plain hc) (Call.plain hd) hkey
  have hversion : c.route.physical.version = d.route.physical.version := by
    rw [← c.route_version, ← d.route_version, hlogical]
  -- a version belongs to one function
  have hphysical : c.route.physical = d.route.physical := by
    rw [AgentState.Issued, hversion, hdi] at hci
    have hname := Option.some.inj (Option.some.inj hci)
    generalize c.route.physical = i at hversion hname ⊢
    generalize d.route.physical = j at hversion hname ⊢
    cases i
    cases j
    simp_all [FuncIdentity.name]
  -- and the rest of the logical name is the caller
  have hcaller : ∀ {a b : Call} {x : String}, a.route.logical = b.route.logical →
      a.route.physical = b.route.physical → a.route.callerTenant = some x →
      b.route.callerTenant = some x := by
    intro a b x hl hp hx
    obtain ⟨hns, hname⟩ := Call.callerTenant_eq_some hx
    rcases hy : b.route.callerTenant with _ | y
    · have hlen := Call.length_of_callerTenant_none hy (hl ▸ hns)
      rw [← hl, ← hp, hname, String.length_append, String.length_append] at hlen
      have hdot : ".".length = 1 := by decide
      omega
    · obtain ⟨-, hname'⟩ := Call.callerTenant_eq_some hy
      rw [← hl, ← hp, hname] at hname'
      have hxy := congrArg String.toList hname'
      rw [String.toList_append (t := x), String.toList_append (t := y)] at hxy
      rw [String.toList_inj.mp (List.append_cancel_left hxy)]
  have hct : c.route.callerTenant = d.route.callerTenant := by
    rcases hx : c.route.callerTenant with _ | x
    · rcases hy : d.route.callerTenant with _ | y
      · rfl
      · rw [hcaller hlogical.symm hphysical.symm hy] at hx
        cases hx
    · exact (hcaller hlogical hphysical hx).symm
  generalize c.route = r at hlogical hphysical hct ⊢
  generalize d.route = q at hlogical hphysical hct ⊢
  cases r
  cases q
  simp_all

/-! ## Runs -/

/-- The route of an agent is the route of a call with its version. -/
def AgentState.Made (s : AgentState) (r : FuncRouteTarget) : Prop :=
  ∃ c : Call, c.Valid ∧ c.route = r ∧ s.Issued r.physical.name r.physical.version

/-- Every agent is filed under the key of its route, and every call so far was
served by the agent of its own route. -/
structure AgentState.Inv (s : AgentState) : Prop where
  agents : ∀ k r, s.agents[k]? = some r → k = r.agentKey ∧ s.Made r
  served : ∀ p ∈ s.served, p.2 = p.1

theorem get_foldl_erase {m : BTreeMap String FuncRouteTarget} {l : List String} {k : String}
    {r : FuncRouteTarget} (h : (l.foldl Std.ExtTreeMap.erase m)[k]? = some r) : m[k]? = some r := by
  induction l generalizing m with
  | nil => exact h
  | cons a l ih =>
    have h' := ih h
    exact (BTreeMap.get_erase_eq_some.mp h').2

/-- The agents after a look-up are old ones, or the one made for the route. -/
theorem getClient_agents {m : BTreeMap String FuncRouteTarget} {route r : FuncRouteTarget}
    {k : String} (h : (getClient m route).1[k]? = some r) :
    m[k]? = some r ∨ k = route.agentKey ∧ r = route := by
  unfold getClient at h
  rcases hm : m[route.agentKey]? with _ | a
  · rw [hm] at h
    have h' := get_foldl_erase h
    rw [BTreeMap.get_insert] at h'
    by_cases hk : k = route.agentKey
    · rw [if_pos hk] at h'
      exact .inr ⟨hk, (Option.some.inj h').symm⟩
    · rw [if_neg hk] at h'
      exact .inl h'
  · rw [hm] at h
    exact .inl (get_foldl_erase h)

/-- The agent of a look-up is the one filed under the key, or the one made for the route. -/
theorem getClient_agent (m : BTreeMap String FuncRouteTarget) (route : FuncRouteTarget) :
    m[route.agentKey]? = some (getClient m route).2 ∨ (getClient m route).2 = route := by
  unfold getClient
  rcases hm : m[route.agentKey]? with _ | a
  · exact .inr rfl
  · exact .inl rfl

theorem AgentState.Issued.append {s : AgentState} {name : FuncName} {v : ℕ}
    (h : s.Issued name v) (l : List (Option FuncName)) :
    (s.revisions ++ l)[v]? = some (some name) := by
  have hlt : v < s.revisions.length := (List.getElem?_eq_some_iff.mp h).1
  rw [List.getElem?_append_left hlt]
  exact h

theorem AgentState.inv_next {s s' : AgentState} {i : AgentInput} (hinv : s.Inv)
    (hok : s.Admits i) (h : s.next i = some s') : s'.Inv := by
  -- a new revision leaves the versions of functions as they are
  have hrev : ∀ l, (⟨s.revisions ++ l, s.agents, s.served⟩ : AgentState).Inv := by
    intro l
    refine ⟨fun k r hr => ?_, hinv.served⟩
    obtain ⟨hk, c, hc, hcr, hi⟩ := hinv.agents k r hr
    exact ⟨hk, c, hc, hcr, hi.append l⟩
  cases i with
  | write =>
    obtain rfl := Option.some.inj h
    exact hrev _
  | uid name =>
    obtain rfl := Option.some.inj h
    exact hrev _
  | retire key =>
    obtain rfl := Option.some.inj h
    exact ⟨fun k r hr => hinv.agents k r (BTreeMap.get_erase_eq_some.mp hr).2, hinv.served⟩
  | call c =>
    obtain rfl := Option.some.inj h
    obtain ⟨hvalid, hissued⟩ := hok
    constructor
    · intro k r hr
      rcases getClient_agents hr with hr | ⟨hk, rfl⟩
      · exact hinv.agents k r hr
      · exact ⟨hk, c, hvalid, rfl, hissued⟩
    · intro p hp
      rcases List.mem_append.mp hp with hp | hp
      · exact hinv.served p hp
      · obtain rfl := List.mem_singleton.mp hp
        rcases getClient_agent s.agents c.route with hagent | hagent
        · obtain ⟨hkey, d, hd, hdr, hdi⟩ := hinv.agents _ _ hagent
          rw [← hdr] at hkey hdi ⊢
          exact (route_of_key hvalid hd hissued hdi hkey).symm
        · exact hagent

/-- **Every call is served by its own agent.** In every run of function writes,
calls with valid names and retirements, the agent that a call is given was made
for a route with the same physical function, the same payer and the same caller. -/
theorem served_by_own_agent {s : AgentState}
    (h : Reach AgentState.next (· = .empty) AgentState.Admits s) :
    ∀ p ∈ s.served, p.2.physical = p.1.physical ∧ p.2.payer = p.1.payer ∧
      p.2.caller = p.1.caller := by
  have hinv : s.Inv := by
    refine Reach.invariant ?_ (fun s i s' => AgentState.inv_next) h
    rintro s rfl
    exact ⟨fun k r hr => by simp [AgentState.empty] at hr, fun p hp => nomatch hp⟩
  intro p hp
  rw [hinv.served p hp]
  exact ⟨rfl, rfl, rfl⟩

instance (s : AgentState) (i : AgentInput) : Decidable (s.Admits i) :=
  match i with
  | .call c => inferInstanceAs (Decidable (c.Valid ∧
      s.revisions[c.route.physical.version]? = some (some c.route.physical.name)))
  | .write | .uid _ | .retire _ => inferInstanceAs (Decidable True)

/-- Two skills of `a` whose joined names are the same text. -/
def dottedRun : List AgentInput :=
  [.uid ⟨"a.b", "c", "f"⟩, .uid ⟨"a", "b.c", "f"⟩,
    .call (.skillcall ⟨"o", "a.b", "c", "f", false⟩ "t" 0),
    .call (.skillcall ⟨"o", "a", "b.c", "f", false⟩ "t" 1)]

theorem served_by_own_agent_dotted : ∃ s, Reach AgentState.next (· = .empty) AgentState.Admits s ∧
    s.served.length = 2 ∧ ∀ p ∈ s.served, p.2.physical = p.1.physical ∧ p.2.payer = p.1.payer ∧
      p.2.caller = p.1.caller := by
  have hrun : ((exec AgentState.next AgentState.Admits .empty dottedRun).map
      fun s => s.served.length) = some 2 := by decide +kernel
  obtain ⟨s, hs, hlen⟩ := Option.map_eq_some_iff.mp hrun
  have hreach : Reach AgentState.next (· = .empty) AgentState.Admits s :=
    Reach.of_exec _ _ (.init rfl) hs
  exact ⟨s, hreach, hlen, served_by_own_agent hreach⟩

end Inferx.Gateway
