import Inferx.Gateway.Auth

/-!
# Inference and the quota

With billing enforced, `TenantQuotaGuard` looks at every request before its
handler. It takes the tenant from a table of path prefixes; the handlers take
the payer from the path, from the token or from the skill. `reaches` is the
payer with which a request gets to a function, if it does, and
`quota_guarded_iff` says on which routes no tenant over its quota is ever that
payer: on all that are in the table or check themselves, which leaves out
`/modelcall` and `/models`.
-/

namespace Inferx.Gateway

open AccessToken

inductive Method where
  | get | head | post | put | patch | delete | options
  deriving DecidableEq, Repr

/-- The routes that lead to a function. -/
inductive Route where
  | funccall | directfunccall | modelcall | models | endpoints | v1 | skills
  deriving DecidableEq, Repr

/-- A skill, as far as a call looks at it before it is dispatched. -/
structure Skill where
  ownerTenant : String
  /-- `gpu_billing_target` is `owner` -/
  ownerBilled : Bool
  /-- the cache, if there is one, is ready -/
  cacheReady : Bool
  /-- its prefix and its function are there -/
  runnable : Bool

/-- What the gateway knows when a request comes in. -/
structure CallEnv where
  /-- `enforceBilling` -/
  enforceBilling : Bool
  /-- `quota_exempt` and `quota_exceeded` of a tenant; `none` when there is no such tenant -/
  quota : String → Option (Bool × Bool)
  /-- `resolve_funccall_target` finds the function -/
  resolves : String → String → String → Bool
  /-- tenants on the provider allowlist -/
  providerAllowed : String → Bool
  /-- the shared endpoint of a model can be called -/
  sharedServes : String → Bool
  /-- the skill of an owner, a namespace and a name -/
  skill : String → String → String → Option Skill
  /-- a model name fits into a URI -/
  uriOk : String → Bool

/-- A request with its token. -/
structure CallReq where
  method : Method
  path : String
  token : AccessToken
  /-- the default tenant of the token -/
  defaultTenant : Option String
  /-- `model` in the body, when the body is JSON -/
  model : Option String

namespace CallReq

/-- The pieces of the path; the first one is empty. -/
def parts (req : CallReq) : List String := Strs.splitOnChar '/' req.path

end CallReq

/-! ## The guard -/

/-- The table of path prefixes. -/
def tenantFromPath (parts : List String) : Option String :=
  match parts with
  | _ :: first :: _ =>
    if first = "rbac" then
      if parts[2]? = some "tenantusers" ∨ parts[2]? = some "namespaceusers" then parts[4]? else none
    else if first = "object" then if parts[2]? = some "tenant" then parts[5]? else parts[3]?
    else if first = "objects" then if parts[2]? = some "tenant" then none else parts[3]?
    else if first ∈ ["readypods", "directfunccall", "funccall", "sampleccall", "podlog",
        "podauditlog", "SnapshotSchedule", "faillogs", "faillog", "getreqs", "pods", "pod",
        "functions", "function", "tokenizer", "snapshot", "snapshots", "tenant"] then parts[2]?
    else none
  | _ => none

variable (env : CallEnv) (req : CallReq)

/-- `tenant_quota_state`; `none` is a failed look-up. -/
def tenantQuotaState (tenant : String) : Option (Bool × Bool) :=
  if tenant.isEmpty then some (false, false) else env.quota tenant

def isFunccallPath (path : String) : Bool :=
  (Strs.afterPrefix "/funccall/" path).isSome || (Strs.afterPrefix "/directfunccall/" path).isSome ||
    (Strs.afterPrefix "/sampleccall/" path).isSome

/-- `enforce_tenant_quota_for_request` has an answer of its own. -/
def quotaBlocksRequest (tenant : String) : Bool :=
  if req.token.isInferxAdmin then false
  else match tenantQuotaState env tenant with
    | some (true, _) => false
    | some (false, true) =>
      isFunccallPath req.path || !(req.method == .get || req.method == .head || req.method == .options)
    | some (false, false) => false
    | none => true

/-- `TenantQuotaGuard` answers the request itself. -/
def guardBlocks : Bool :=
  if !env.enforceBilling then false
  else match tenantFromPath req.parts with
    | some tenant =>
      if tenant.isEmpty then false
      else if req.token.isInferxAdmin then false
      else quotaBlocksRequest env req tenant
    | none => false

/-! ## The handlers -/

/-- `is_blocked_public_endpoint_inference` -/
def blockedPublic (tenant nameSpace : String) : Bool := tenant == "public" && nameSpace == "endpoints"

/-- The piece of a path that a pod must not be asked for. -/
def sleepsOrWakes (p : String) : Bool :=
  (Strs.afterPrefix "sleep" p).isSome || (Strs.afterPrefix "wake_up" p).isSome

/-- `FuncCall1` on the pieces of a path: the payer of the dispatched call. -/
def funcCall1 (parts : List String) : Option String :=
  match parts with
  | _ :: _ :: tenant :: nameSpace :: func :: rest =>
    if rest.head?.any sleepsOrWakes then none
    else if blockedPublic tenant nameSpace then none
    else if !req.token.checkScope "inference" then none
    else if !req.token.isNamespaceInferenceUser tenant nameSpace then none
    else if !env.resolves tenant nameSpace func then none
    else some tenant
  | _ => none

/-- `FuncCallWithTokenTracking` -/
def modelCall : Option String := funcCall1 env req req.parts

/-- `ModelsFuncCall`: the call is rewritten to the function that the body names. -/
def modelsFuncCall : Option String :=
  match req.parts with
  | _ :: _ :: tenant :: nameSpace :: rest =>
    if req.method = .get ∧ (rest = ["v1", "models"] ∨ rest = ["health"]) then none
    else match req.model with
      | none => none
      | some model =>
        if !env.uriOk model then none
        else funcCall1 env req
          ("" :: "funccall" :: tenant :: nameSpace :: (Strs.splitOnChar '/' model ++ rest))
  | _ => none

/-- `DirectFuncCall` up to `DirectFuncCallProc` -/
def directFuncCall : Option String :=
  match req.parts with
  | _ :: _ :: tenant :: nameSpace :: _ :: _ :: _ :: _ =>
    if blockedPublic tenant nameSpace then none
    else if !req.token.checkScope "inference" then none
    else if !req.token.isNamespaceInferenceUser tenant nameSpace then none
    else some tenant
  | _ => none

/-- `resolve_skill_calling_tenant`: the tenant that the token speaks for. -/
def callingTenant : Option String :=
  match req.token.restrictTenant with
  | some tenant => some tenant
  | none => match req.defaultTenant with
    | some dt => if (env.quota dt).isSome && req.token.isTenantUser dt then some dt else none
    | none => none

/-- `SharedEndpointCompletions`, and `OpenRouterChatCompletions` with its allowlist. -/
def sharedEndpoint (allowed : String → Bool) : Option String :=
  if !req.token.checkScope "inference" then none
  else match callingTenant env req with
    | none => none
    | some tenant =>
      if !allowed tenant then none
      else if quotaBlocksRequest env req tenant then none
      else match req.model with
        | none => none
        | some model => if env.sharedServes model then some tenant else none

/-- `SkillCall` of the skill `owner/nameSpace/name` -/
def skillDispatch (owner nameSpace name : String) : Option String :=
  if !req.token.checkScope "inference" then none
  else match env.skill owner nameSpace name with
    | none => none
    | some skill =>
      if !skill.cacheReady then none
      else match callingTenant env req with
        | none => none
        | some tenant =>
          let payer := if skill.ownerBilled then skill.ownerTenant else tenant
          if !req.token.isInferxAdmin &&
              (tenantQuotaState env payer == some (false, true) ||
                tenantQuotaState env payer == none) then none
          else if !skill.runnable then none
          else some payer

/-! ## The router -/

/-- The routes with a wildcard, for three methods. -/
def wildcardMethod : Method → Bool
  | .get | .head | .post => true
  | _ => false

/-- The route of a request, if it is one of those that lead to a function. -/
def routeOf : Option Route :=
  match req.parts with
  | "" :: first :: rest =>
    if first = "funccall" ∧ rest ≠ [] ∧ rest ≠ [""] ∧ wildcardMethod req.method then some .funccall
    else if first = "directfunccall" ∧ rest ≠ [] ∧ rest ≠ [""] ∧ wildcardMethod req.method then
      some .directfunccall
    else if first = "modelcall" ∧ rest ≠ [] ∧ rest ≠ [""] ∧ wildcardMethod req.method then
      some .modelcall
    else if first = "models" ∧ rest ≠ [] ∧ rest ≠ [""] ∧ wildcardMethod req.method then some .models
    else if first = "endpoints" ∧ (rest = ["v1", "chat", "completions"] ∨ rest = ["v1", "completions"])
        ∧ req.method = .post then some .endpoints
    else if first = "v1" ∧ (rest = ["chat", "completions"] ∨ rest = ["completions"]) ∧
        req.method = .post then some .v1
    else if first = "skills" ∧ 4 ≤ rest.length ∧ rest.drop 3 ≠ ["publish"] ∧
        rest.drop 3 ≠ ["unpublish"] ∧ rest.drop 3 ≠ [""] ∧ wildcardMethod req.method then some .skills
    else none
  | _ => none

/-- The skill that a path names. -/
def skillCallPath : Option String :=
  match req.parts with
  | _ :: _ :: owner :: nameSpace :: name :: _ => skillDispatch env req owner nameSpace name
  | _ => none

/-- The handler of a route. -/
def handleRoute : Route → Option String
  | .funccall => funcCall1 env req req.parts
  | .directfunccall => directFuncCall req
  | .modelcall => modelCall env req
  | .models => modelsFuncCall env req
  | .endpoints => sharedEndpoint env req fun _ => true
  | .v1 => sharedEndpoint env req env.providerAllowed
  | .skills => skillCallPath env req

/-- The payer with which a request gets to `dispatch_func_call`,
`dispatch_failover` or `DirectFuncCallProc`. -/
def reaches : Option String :=
  if guardBlocks env req then none
  else match routeOf req with
    | some route => handleRoute env req route
    | none => none

/-! ## Tenants over their quota -/

section Guarded

variable {env : CallEnv} {req : CallReq} {tenant : String}

/-- A tenant that is not exempt and has exceeded its quota. The empty name,
which the look-up passes over, is no tenant. -/
def OverQuota (env : CallEnv) (tenant : String) : Prop :=
  tenant ≠ "" ∧ env.quota tenant = some (false, true)

theorem quotaState_of_over (h : OverQuota env tenant) :
    tenantQuotaState env tenant = some (false, true) := by
  have hne : tenant.isEmpty = false := by simpa using h.1
  rw [tenantQuotaState, hne]
  exact h.2

/-- The check of a request turns a tenant over its quota down. -/
theorem quotaBlocksRequest_of_over (h : OverQuota env tenant)
    (hadmin : req.token.isInferxAdmin = false)
    (hkind : isFunccallPath req.path = true ∨ req.method = .post) :
    quotaBlocksRequest env req tenant = true := by
  unfold quotaBlocksRequest
  rw [hadmin, quotaState_of_over h]
  rcases hkind with hpath | hpost
  · simp [hpath]
  · simp [hpost]

/-- The guard turns down what the table finds a tenant over its quota for. -/
theorem guardBlocks_of_over (hbilling : env.enforceBilling = true) (h : OverQuota env tenant)
    (hadmin : req.token.isInferxAdmin = false) (hpath : isFunccallPath req.path = true)
    (htable : tenantFromPath req.parts = some tenant) : guardBlocks env req = true := by
  have hne : tenant.isEmpty = false := by simpa using h.1
  unfold guardBlocks
  rw [hbilling, htable]
  simp only [Bool.not_true, Bool.false_eq_true, if_false, hne, hadmin]
  exact quotaBlocksRequest_of_over h hadmin (.inl hpath)

theorem funcCall1_payer {parts : List String} (h : funcCall1 env req parts = some tenant) :
    ∃ a b ns f rest, parts = a :: b :: tenant :: ns :: f :: rest := by
  unfold funcCall1 at h
  split at h
  next a b t ns f rest =>
    have ht : t = tenant := by
      by_contra hne
      simp [hne] at h
    exact ⟨a, b, ns, f, rest, by rw [ht]⟩
  next => cases h

theorem directFuncCall_payer (h : directFuncCall req = some tenant) :
    ∃ a b ns f rest, req.parts = a :: b :: tenant :: ns :: f :: rest := by
  unfold directFuncCall at h
  split at h
  next a b t ns f v i rest hparts =>
    have ht : t = tenant := by
      by_contra hne
      simp [hne] at h
    exact ⟨a, b, ns, f, v :: i :: rest, by rw [hparts, ht]⟩
  next => cases h

/-- The two routes of the table: the tenant in the path is the payer. -/
theorem guardBlocks_of_table (hbilling : env.enforceBilling = true) (h : OverQuota env tenant)
    (hadmin : req.token.isInferxAdmin = false) {first ns f : String} {rest : List String}
    (hfirst : first = "funccall" ∨ first = "directfunccall")
    (hparts : req.parts = "" :: first :: tenant :: ns :: f :: rest) : guardBlocks env req = true := by
  refine guardBlocks_of_over hbilling h hadmin ?_ ?_
  · obtain ⟨t, ht⟩ := Strs.eq_of_splitOnChar hparts
    have hpath : (Strs.afterPrefix ("/" ++ (first ++ "/")) req.path).isSome = true := by
      rw [Option.isSome_iff_exists]
      refine ⟨String.ofList t, Strs.afterPrefix_eq_some.mp ?_⟩
      rw [← String.toList_inj, ht]
      simp
    rcases hfirst with rfl | rfl
    · rw [isFunccallPath, Bool.or_eq_true, Bool.or_eq_true]
      exact .inl (.inl hpath)
    · rw [isFunccallPath, Bool.or_eq_true, Bool.or_eq_true]
      exact .inl (.inr hpath)
  · rw [hparts]
    rcases hfirst with rfl | rfl <;> rfl

/-- The shared endpoints check the tenant of the token themselves. -/
theorem sharedEndpoint_ne (h : OverQuota env tenant) (hadmin : req.token.isInferxAdmin = false)
    (hpost : req.method = .post) (allowed : String → Bool) :
    sharedEndpoint env req allowed ≠ some tenant := by
  intro hreach
  unfold sharedEndpoint at hreach
  by_cases hscope : req.token.checkScope "inference" = true
  · rcases hcall : callingTenant env req with _ | t
    · simp [hscope, hcall] at hreach
    · by_cases hallowed : allowed t = true
      · by_cases hblock : quotaBlocksRequest env req t = true
        · simp [hscope, hcall, hallowed, hblock] at hreach
        · have hne : t ≠ tenant := by
            rintro rfl
            exact hblock (quotaBlocksRequest_of_over h hadmin (.inr hpost))
          rcases hmodel : req.model with _ | m
          · simp [hscope, hcall, hallowed, hblock, hmodel] at hreach
          · simp [hscope, hcall, hallowed, hblock, hmodel, hne] at hreach
      · simp [hscope, hcall, hallowed] at hreach
  · simp [hscope] at hreach

/-- A skill call checks whoever pays for it. -/
theorem skillDispatch_ne (h : OverQuota env tenant) (hadmin : req.token.isInferxAdmin = false)
    (owner ns name : String) : skillDispatch env req owner ns name ≠ some tenant := by
  intro hreach
  unfold skillDispatch at hreach
  by_cases hscope : req.token.checkScope "inference" = true
  · rcases hskill : env.skill owner ns name with _ | skill
    · simp [hscope, hskill] at hreach
    · rcases hcall : callingTenant env req with _ | t
      · simp [hscope, hskill, hcall] at hreach
      · by_cases hpayer : (if skill.ownerBilled = true then skill.ownerTenant else t) = tenant
        · simp [hscope, hskill, hcall, hpayer, hadmin, quotaState_of_over h] at hreach
        · simp [hscope, hskill, hcall, hpayer] at hreach
  · simp [hscope] at hreach

theorem skillCallPath_ne (h : OverQuota env tenant) (hadmin : req.token.isInferxAdmin = false) :
    skillCallPath env req ≠ some tenant := by
  intro hreach
  unfold skillCallPath at hreach
  split at hreach
  next => exact skillDispatch_ne h hadmin _ _ _ hreach
  next => cases hreach

/-- What the router has seen of a request it sends to a handler. -/
theorem routeOf_spec {route : Route} (h : routeOf req = some route) :
    ∃ first rest, req.parts = "" :: first :: rest ∧
      (route = .funccall → first = "funccall") ∧
      (route = .directfunccall → first = "directfunccall") ∧
      (route = .endpoints ∨ route = .v1 → req.method = .post) := by
  unfold routeOf at h
  split at h
  next first rest hparts =>
    refine ⟨first, rest, hparts, ?_⟩
    repeat' split at h
    all_goals cases h
    all_goals simp_all
  next => cases h

/-- A request at the expense of `acme`, which is over its quota. -/
def overEnv : CallEnv where
  enforceBilling := true
  quota tenant := if tenant = "acme" then some (false, true) else none
  resolves _ _ _ := true
  providerAllowed _ := false
  sharedServes _ := false
  skill _ _ _ := none
  uriOk _ := true

/-- A call by a user of `acme`. -/
def acmeCall (path : String) : CallReq where
  method := .post
  path := path
  token := new "bob" ["/tenant/user/acme"] [] 0
  defaultTenant := none
  model := some "f"

theorem modelcall_reaches :
    reaches overEnv (acmeCall "/modelcall/acme/prod/f/v1/chat/completions") = some "acme" := by
  decide +kernel

theorem models_reaches :
    reaches overEnv (acmeCall "/models/acme/prod/v1/chat/completions") = some "acme" := by
  decide +kernel

/-- **Where the quota is enforced.** On a route, no request of a token that is no
InferX administrator gets to a function at the expense of a tenant over its
quota, exactly when the route is neither `/modelcall` nor `/models`. -/
theorem quota_guarded_iff (route : Route) :
    (∀ (env : CallEnv) (req : CallReq) (tenant : String), env.enforceBilling = true →
      req.token.isInferxAdmin = false → OverQuota env tenant → routeOf req = some route →
      reaches env req ≠ some tenant) ↔ route ≠ .modelcall ∧ route ≠ .models := by
  constructor
  · intro h
    have hover : OverQuota overEnv "acme" := ⟨by decide, rfl⟩
    constructor
    · rintro rfl
      exact h overEnv _ "acme" rfl (by decide +kernel) hover (by decide +kernel) modelcall_reaches
    · rintro rfl
      exact h overEnv _ "acme" rfl (by decide +kernel) hover (by decide +kernel) models_reaches
  · rintro ⟨hmodelcall, hmodels⟩ env req tenant hbilling hadmin hover hroute hreach
    obtain ⟨first, rest, hparts, hfunc, hdirect, hpost⟩ := routeOf_spec hroute
    unfold reaches at hreach
    rw [hroute] at hreach
    by_cases hguard : guardBlocks env req = true
    · simp [hguard] at hreach
    · rw [if_neg hguard] at hreach
      cases route with
      | funccall =>
        obtain ⟨a, b, ns, f, l, hp⟩ := funcCall1_payer hreach
        obtain ⟨rfl, rfl, -⟩ : a = "" ∧ b = first ∧ _ = rest := by simpa [hparts, eq_comm] using hp
        exact hguard (guardBlocks_of_table hbilling hover hadmin (.inl (hfunc rfl)) hp)
      | directfunccall =>
        obtain ⟨a, b, ns, f, l, hp⟩ := directFuncCall_payer hreach
        obtain ⟨rfl, rfl, -⟩ : a = "" ∧ b = first ∧ _ = rest := by simpa [hparts, eq_comm] using hp
        exact hguard (guardBlocks_of_table hbilling hover hadmin (.inr (hdirect rfl)) hp)
      | modelcall => exact hmodelcall rfl
      | models => exact hmodels rfl
      | endpoints => exact sharedEndpoint_ne hover hadmin (hpost (.inl rfl)) _ hreach
      | v1 => exact sharedEndpoint_ne hover hadmin (hpost (.inr rfl)) _ hreach
      | skills => exact skillCallPath_ne hover hadmin hreach

theorem modelcall_over_quota :
    ¬ ∀ (env : CallEnv) (req : CallReq) (tenant : String), env.enforceBilling = true →
      req.token.isInferxAdmin = false → OverQuota env tenant → reaches env req ≠ some tenant := by
  intro h
  exact h overEnv _ "acme" rfl (by decide +kernel) ⟨by decide, rfl⟩ modelcall_reaches

end Guarded

end Inferx.Gateway
