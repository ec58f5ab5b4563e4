import Inferx.Gateway.Apikeys
import Inferx.Metastore.Objects

/-!
# Requests about objects

`CreateObj`, `UpdateObj`, `DeleteObj` and `GetObj` pass a request on to the
state service. Four kinds of objects have handlers of their own, each with its
own rule; every other kind goes to the state service by a branch at the end. A
request is modelled by the list of calls it makes to the state service, so that
a request that is turned down is the empty list. `objects_authorised_iff` says
for which operations and kinds that list is empty without the permission: reads
and the four kinds with a handler.
-/

namespace Inferx.Gateway

open AccessToken Metastore

/-! ## Tokens that are handed out -/

/-- The token of a request without a login. -/
def anonymous (now : ℕ) : AccessToken :=
  { username := "anonymous", roles := ∅, scope := "read", updatetime := now }

/-- The tokens that requests carry: a user's own, the one for requests without
a login, and those of API keys. The token of the configured administrator key is
the one of the user `inferx_admin` without roles. -/
inductive Issued : AccessToken → Prop where
  | user (u : String) (g k : List String) (now : ℕ) : Issued (new u g k now)
  | anonymous (now : ℕ) : Issued (anonymous now)
  | apikey {u : String} {g k : List String} {made now : ℕ} {key : Apikey} {t : AccessToken} :
      applyApikeyRestrictions (new u g k made) key now = .ok t → Issued t

/-- Whoever administers a tenant is not confined to a namespace of it. -/
theorem Issued.namespace_of_tenantAdmin {t : AccessToken} (h : Issued t) {x : String}
    (hadmin : t.isTenantAdmin x = true) : t.restrictNamespace = none := by
  cases h with
  | user u g k now => rfl
  | anonymous now => rfl
  | apikey h =>
    obtain ⟨-, rfl⟩ := applyApikeyRestrictions_ok h
    obtain ⟨-, h⟩ := (restricted_holds (p := .tenantAdmin x) ..).mp hadmin
    rcases h with h | h | ⟨habout, howned⟩
    · exact ((restricted_isInferxAdmin ..).mp h).2.2.1
    · exact h.elim
    · have hrole := ((mem_restricted_roles ..).mp howned).2
      rw [tenantAdminRole_eq] at hrole
      exact roleAllowed_tenantLevel hrole

/-- The administrator of a tenant administers its namespaces. -/
theorem Issued.isNamespaceAdmin {t : AccessToken} (h : Issued t) {x : String}
    (hadmin : t.isTenantAdmin x = true) (n : String) : t.isNamespaceAdmin x n = true := by
  have hns := h.namespace_of_tenantAdmin hadmin
  obtain ⟨hlevel, hp⟩ := (holds_iff t (p := .tenantAdmin x) (by simp)).mp hadmin
  refine (holds_iff t (p := .namespaceAdmin x n) (by simp)).mpr ⟨hlevel, ?_⟩
  rcases hp with hp | ⟨hall, hp⟩
  · exact hp.elim
  · have hten : t.allowTenant x = true := hall
    refine .inr ⟨?_, hp.imp id .inl⟩
    simp [Permission.allowed, allowNamespace, hten, hns]

/-- The administrator of a tenant is a user of it. -/
theorem isTenantUser_of_admin {t : AccessToken} {x : String} (hadmin : t.isTenantAdmin x = true) :
    t.isTenantUser x = true := by
  obtain ⟨hlevel, hp⟩ := (holds_iff t (p := .tenantAdmin x) (by simp)).mp hadmin
  refine (holds_iff t (p := .tenantUser x) (by simp)).mpr ⟨Nat.le_of_succ_le hlevel, ?_⟩
  rcases hp with hp | ⟨hall, hp⟩
  · exact hp.elim
  · exact .inr ⟨hall, hp.imp id fun h => .inr (.inr h)⟩

/-! ## The handlers -/

section Handlers

variable {V : Type}

/-- A call to the state service. -/
inductive StateCall (V : Type) where
  | create (obj : DataObject V)
  | update (obj : DataObject V)
  | delete (objType tenant nameSpace name : String)
  | get (objType tenant nameSpace name : String)
  | uid

/-- What a request finds: the gateway's settings and objects, the state of the
knowledge base files, and the answers of the state service. -/
structure ObjectEnv (V : Type) where
  /-- `enforceBilling` -/
  enforceBilling : Bool
  /-- `quota_exempt` and `quota_exceeded` of a tenant; `none` when there is no such tenant -/
  quota : String → Option (Bool × Bool)
  /-- no namespace of the tenant is known -/
  noNamespaces : String → Bool
  /-- no function of the namespace is known -/
  noFuncs : String → String → Bool
  /-- the payload has the shape of its kind -/
  parses : DataObject V → Bool
  /-- a fresh version is written into the payload of a function -/
  withVersion : V → V
  /-- the file of a knowledge base, if it is one, is in its place -/
  kbReady : DataObject V → Bool
  /-- the state service answers a call without an error -/
  answers : StateCall V → Bool

/-- A request about an object. -/
inductive ObjectReq (V : Type) where
  | create (obj : DataObject V)
  | update (obj : DataObject V)
  | delete (objType tenant nameSpace name : String)
  | get (objType tenant nameSpace name : String)

def tenantKEY : String := "tenant"
def namespaceKEY : String := "namespace"
def functionKEY : String := "function"
def funcPolicyKEY : String := "funcpolicy"

variable (env : ObjectEnv V) (token : AccessToken)

/-- The calls that are made one after the other until one fails. -/
def ObjectEnv.calls : List (StateCall V) → List (StateCall V)
  | [] => []
  | c :: l => c :: if env.answers c then ObjectEnv.calls l else []

/-- `enforce_tenant_quota_for_write` has an answer of its own. -/
def quotaBlocksWrite (tenant : String) : Bool :=
  if token.isInferxAdmin then false
  else if tenant.isEmpty then false
  else match env.quota tenant with
    | some (true, _) => false
    | some (false, exceeded) => exceeded
    | none => true

def createTenant (obj : DataObject V) : List (StateCall V) :=
  if !token.isInferxAdmin then []
  else if !env.parses obj then []
  else if obj.tenant != "system" || obj.nameSpace != "system" then []
  else env.calls [.create obj]

def createNamespace (obj : DataObject V) : List (StateCall V) :=
  if !env.parses obj then []
  else if obj.nameSpace != "system" then []
  else if !token.isTenantAdmin obj.tenant then []
  else env.calls [.create obj]

def createFunc (obj : DataObject V) : List (StateCall V) :=
  if !env.parses obj then []
  else if !token.isNamespaceAdmin obj.tenant obj.nameSpace then []
  else if env.answers .uid && env.kbReady obj then
    .uid :: env.calls [.create { obj with object := env.withVersion obj.object }]
  else [.uid]

def createFuncPolicy (obj : DataObject V) : List (StateCall V) :=
  if !token.isNamespaceAdmin obj.tenant obj.nameSpace then []
  else env.calls [.create obj]

def updateTenant (obj : DataObject V) : List (StateCall V) :=
  if !env.parses obj then []
  else if obj.tenant != "system" || obj.nameSpace != "system" then []
  else if !token.isTenantAdmin obj.name then []
  else env.calls [.update obj]

/-- A namespace is never updated. -/
def updateNamespace (_obj : DataObject V) : List (StateCall V) := []

def updateFunc (obj : DataObject V) : List (StateCall V) :=
  if !token.isNamespaceAdmin obj.tenant obj.nameSpace then []
  else if !env.parses obj then []
  else if env.answers (.get functionKEY obj.tenant obj.nameSpace obj.name) && env.answers .uid &&
      env.kbReady obj then
    .get functionKEY obj.tenant obj.nameSpace obj.name :: .uid ::
      env.calls [.update { obj with object := env.withVersion obj.object }]
  else env.calls [.get functionKEY obj.tenant obj.nameSpace obj.name, .uid]

def updateFuncPolicy (obj : DataObject V) : List (StateCall V) :=
  if !token.isNamespaceAdmin obj.tenant obj.nameSpace then []
  else env.calls [.update obj]

def deleteTenant (tenant nameSpace name : String) : List (StateCall V) :=
  if tenant != "system" || nameSpace != "system" then []
  else if !token.isInferxAdmin then []
  else if !env.noNamespaces name then []
  else env.calls [.delete tenantKEY tenant nameSpace name]

def deleteNamespace (tenant nameSpace name : String) : List (StateCall V) :=
  if nameSpace != "system" then []
  else if !env.noFuncs tenant name then []
  else if !token.isTenantAdmin tenant then []
  else env.calls [.delete namespaceKEY tenant nameSpace name]

/-- `DeleteFunc` and `DeleteFuncPolicy`. -/
def deleteInNamespace (objType tenant nameSpace name : String) : List (StateCall V) :=
  if !token.isNamespaceAdmin tenant nameSpace then []
  else env.calls [.delete objType tenant nameSpace name]

/-- The tenant whose quota a write is charged to. -/
def tenantTarget (obj : DataObject V) : String :=
  if obj.objType = tenantKEY then obj.name else obj.tenant

def createObj (obj : DataObject V) : List (StateCall V) :=
  if env.enforceBilling && quotaBlocksWrite env token (tenantTarget obj) then []
  else if obj.objType == tenantKEY && !token.isInferxAdmin then []
  else if obj.objType = tenantKEY then createTenant env token obj
  else if obj.objType = namespaceKEY then createNamespace env token obj
  else if obj.objType = functionKEY then createFunc env token obj
  else if obj.objType = funcPolicyKEY then createFuncPolicy env token obj
  else env.calls [.create obj]

def updateObj (obj : DataObject V) : List (StateCall V) :=
  if env.enforceBilling && quotaBlocksWrite env token (tenantTarget obj) then []
  else if obj.objType = tenantKEY then updateTenant env token obj
  else if obj.objType = namespaceKEY then updateNamespace obj
  else if obj.objType = functionKEY then updateFunc env token obj
  else if obj.objType = funcPolicyKEY then updateFuncPolicy env token obj
  else env.calls [.update obj]

def deleteObj (objType tenant nameSpace name : String) : List (StateCall V) :=
  if objType = tenantKEY then deleteTenant env token tenant nameSpace name
  else if objType = namespaceKEY then deleteNamespace env token tenant nameSpace name
  else if objType = functionKEY then deleteInNamespace env token functionKEY tenant nameSpace name
  else if objType = funcPolicyKEY then
    deleteInNamespace env token funcPolicyKEY tenant nameSpace name
  else env.calls [.delete objType tenant nameSpace name]

def getObj (objType tenant nameSpace name : String) : List (StateCall V) :=
  let hasPermission :=
    -- tenant objects are stored as /object/tenant/system/system/<tenant-name>/
    if objType = tenantKEY then token.isInferxAdmin || token.isTenantAdmin name
    -- namespace objects are stored as /object/namespace/<tenant>/system/<namespace-name>/
    else if objType = namespaceKEY then token.isNamespaceUser tenant name
    else token.isNamespaceUser tenant nameSpace
  if !hasPermission then [] else env.calls [.get objType tenant nameSpace name]

/-- The calls that a request makes. -/
def handle : ObjectReq V → List (StateCall V)
  | .create obj => createObj env token obj
  | .update obj => updateObj env token obj
  | .delete objType tenant ns name => deleteObj env token objType tenant ns name
  | .get objType tenant ns name => getObj env token objType tenant ns name

end Handlers

/-! ## The rule -/

section Rule

variable {V : Type}

/-- The operations. -/
inductive ObjectOp where
  | create | update | delete | get
  deriving DecidableEq, Repr

namespace ObjectReq

def op : ObjectReq V → ObjectOp
  | .create _ => .create
  | .update _ => .update
  | .delete .. => .delete
  | .get .. => .get

def objType : ObjectReq V → String
  | .create obj | .update obj => obj.objType
  | .delete objType .. | .get objType .. => objType

def tenant : ObjectReq V → String
  | .create obj | .update obj => obj.tenant
  | .delete _ tenant .. | .get _ tenant .. => tenant

def nameSpace : ObjectReq V → String
  | .create obj | .update obj => obj.nameSpace
  | .delete _ _ ns _ | .get _ _ ns _ => ns

def name : ObjectReq V → String
  | .create obj | .update obj => obj.name
  | .delete _ _ _ name | .get _ _ _ name => name

end ObjectReq

/-- The user permission on the object's own tenant and namespace. A tenant is
its own tenant and a namespace its own namespace. -/
def readPermitted (token : AccessToken) (objType tenant nameSpace name : String) : Prop :=
  if objType = tenantKEY then token.isTenantUser name = true
  else if objType = namespaceKEY then token.isNamespaceUser tenant name = true
  else token.isNamespaceUser tenant nameSpace = true

/-- The administrator permission there. -/
def writePermitted (token : AccessToken) (objType tenant nameSpace name : String) : Prop :=
  if objType = tenantKEY then token.isTenantAdmin name = true
  else if objType = namespaceKEY then token.isNamespaceAdmin tenant name = true
  else token.isNamespaceAdmin tenant nameSpace = true

/-- Who may: an InferX administrator, and whoever has the permission for the operation. -/
def ObjectReq.Permits (req : ObjectReq V) (token : AccessToken) : Prop :=
  token.isInferxAdmin = true ∨
    match req.op with
    | .get => readPermitted token req.objType req.tenant req.nameSpace req.name
    | _ => writePermitted token req.objType req.tenant req.nameSpace req.name

/-- The kinds with a handler of their own. -/
def Dedicated (objType : String) : Prop :=
  objType = tenantKEY ∨ objType = namespaceKEY ∨ objType = functionKEY ∨ objType = funcPolicyKEY

/-- The state service hears of a request only with the permission. -/
def Authorised (env : ObjectEnv V) (token : AccessToken) (req : ObjectReq V) : Prop :=
  handle env token req ≠ [] → req.Permits token

variable {env : ObjectEnv V} {token : AccessToken}

theorem guard_passed {c : Bool} {l : List (StateCall V)}
    (h : (if (!c) = true then [] else l) ≠ []) : c = true ∧ l ≠ [] := by
  cases c with
  | false => exact absurd rfl h
  | true => exact ⟨rfl, h⟩

theorem block_passed {c : Bool} {l : List (StateCall V)} (h : (if c = true then [] else l) ≠ []) :
    l ≠ [] := by
  cases c with
  | false => exact h
  | true => exact absurd rfl h

theorem readPermitted_of_getObj {objType tenant ns name : String}
    (h : getObj env token objType tenant ns name ≠ []) :
    token.isInferxAdmin = true ∨ readPermitted token objType tenant ns name := by
  obtain ⟨hp, -⟩ := guard_passed h
  unfold readPermitted
  by_cases ht : objType = tenantKEY
  · rw [if_pos ht] at hp ⊢
    rw [Bool.or_eq_true] at hp
    exact hp.imp id isTenantUser_of_admin
  · rw [if_neg ht] at hp ⊢
    by_cases hn : objType = namespaceKEY
    · rw [if_pos hn] at hp ⊢
      exact .inr hp
    · rw [if_neg hn] at hp ⊢
      exact .inr hp

/-- The permission for an object that is neither a tenant nor a namespace. -/
theorem writePermitted_in_namespace {objType tenant ns : String} (name : String)
    (hnt : objType ≠ tenantKEY) (hnn : objType ≠ namespaceKEY)
    (h : token.isNamespaceAdmin tenant ns = true) : writePermitted token objType tenant ns name := by
  unfold writePermitted
  rwa [if_neg hnt, if_neg hnn]

theorem writePermitted_of_createObj (htoken : Issued token) {obj : DataObject V}
    (hkind : Dedicated obj.objType) (h : createObj env token obj ≠ []) :
    token.isInferxAdmin = true ∨
      writePermitted token obj.objType obj.tenant obj.nameSpace obj.name := by
  have h := block_passed (block_passed h)
  rcases hkind with ht | hn | hf | hp
  · rw [if_pos ht] at h
    exact .inl (guard_passed h).1
  · rw [if_neg (hn ▸ by decide), if_pos hn] at h
    have hadmin := (guard_passed (block_passed (guard_passed h).2)).1
    refine .inr ?_
    rw [writePermitted, hn, if_neg (by decide), if_pos rfl]
    exact htoken.isNamespaceAdmin hadmin obj.name
  · rw [if_neg (hf ▸ by decide), if_neg (hf ▸ by decide), if_pos hf] at h
    have hadmin := (guard_passed (guard_passed h).2).1
    exact .inr (writePermitted_in_namespace _ (hf ▸ by decide) (hf ▸ by decide) hadmin)
  · rw [if_neg (hp ▸ by decide), if_neg (hp ▸ by decide), if_neg (hp ▸ by decide), if_pos hp] at h
    exact .inr (writePermitted_in_namespace _ (hp ▸ by decide) (hp ▸ by decide) (guard_passed h).1)

theorem writePermitted_of_updateObj {obj : DataObject V}
    (hkind : Dedicated obj.objType) (h : updateObj env token obj ≠ []) :
    writePermitted token obj.objType obj.tenant obj.nameSpace obj.name := by
  have h := block_passed h
  rcases hkind with ht | hn | hf | hp
  · rw [if_pos ht] at h
    have hadmin := (guard_passed (block_passed (guard_passed h).2)).1
    rwa [writePermitted, if_pos ht]
  · rw [if_neg (hn ▸ by decide), if_pos hn] at h
    exact absurd rfl h
  · rw [if_neg (hf ▸ by decide), if_neg (hf ▸ by decide), if_pos hf] at h
    exact writePermitted_in_namespace _ (hf ▸ by decide) (hf ▸ by decide) (guard_passed h).1
  · rw [if_neg (hp ▸ by decide), if_neg (hp ▸ by decide), if_neg (hp ▸ by decide), if_pos hp] at h
    exact writePermitted_in_namespace _ (hp ▸ by decide) (hp ▸ by decide) (guard_passed h).1

theorem writePermitted_of_deleteObj (htoken : Issued token) {objType tenant ns name : String}
    (hkind : Dedicated objType) (h : deleteObj env token objType tenant ns name ≠ []) :
    token.isInferxAdmin = true ∨ writePermitted token objType tenant ns name := by
  unfold deleteObj at h
  rcases hkind with rfl | rfl | rfl | rfl
  · rw [if_pos rfl] at h
    exact .inl (guard_passed (block_passed h)).1
  · rw [if_neg (by decide), if_pos rfl] at h
    have hadmin := (guard_passed (guard_passed (block_passed h)).2).1
    refine .inr ?_
    rw [writePermitted, if_neg (by decide), if_pos rfl]
    exact htoken.isNamespaceAdmin hadmin name
  · rw [if_neg (by decide), if_neg (by decide), if_pos rfl] at h
    exact .inr (writePermitted_in_namespace _ (by decide) (by decide) (guard_passed h).1)
  · rw [if_neg (by decide), if_neg (by decide), if_neg (by decide), if_pos rfl] at h
    exact .inr (writePermitted_in_namespace _ (by decide) (by decide) (guard_passed h).1)

/-- Reads, and every operation on the kinds with a handler, ask for the permission. -/
theorem authorised_of_dedicated (htoken : Issued token) {req : ObjectReq V}
    (hreq : req.op = .get ∨ Dedicated req.objType) : Authorised env token req := by
  intro h
  cases req with
  | create obj =>
    have hkind : Dedicated obj.objType := by simpa [ObjectReq.op, ObjectReq.objType] using hreq
    exact writePermitted_of_createObj htoken hkind h
  | update obj =>
    have hkind : Dedicated obj.objType := by simpa [ObjectReq.op, ObjectReq.objType] using hreq
    exact .inr (writePermitted_of_updateObj hkind h)
  | delete objType tenant ns name =>
    have hkind : Dedicated objType := by simpa [ObjectReq.op, ObjectReq.objType] using hreq
    exact writePermitted_of_deleteObj htoken hkind h
  | get objType tenant ns name => exact readPermitted_of_getObj h

/-! ## The branch at the end -/

/-- A gateway without billing and a state service that answers. -/
def openEnv : ObjectEnv V where
  enforceBilling := false
  quota _ := none
  noNamespaces _ := true
  noFuncs _ _ := true
  parses _ := true
  withVersion v := v
  kbReady _ := true
  answers _ := true

/-- A request of a kind without a handler. -/
def otherReq [Inhabited V] (op : ObjectOp) (objType : String) : ObjectReq V :=
  match op with
  | .create => .create { objType := objType, tenant := "acme", nameSpace := "prod", name := "f",
                         object := default }
  | .update => .update { objType := objType, tenant := "acme", nameSpace := "prod", name := "f",
                         object := default }
  | .delete => .delete objType "acme" "prod" "f"
  | .get => .get objType "acme" "prod" "f"

theorem otherReq_calls [Inhabited V] (token : AccessToken) {op : ObjectOp} {objType : String}
    (hop : op ≠ .get) (hkind : ¬ Dedicated objType) :
    handle openEnv token (otherReq op objType : ObjectReq V) ≠ [] := by
  simp only [Dedicated, not_or] at hkind
  obtain ⟨ht, hn, hf, hp⟩ := hkind
  cases op with
  | create => simp [otherReq, handle, createObj, openEnv, ht, hn, hf, hp, ObjectEnv.calls]
  | update => simp [otherReq, handle, updateObj, openEnv, ht, hn, hf, hp, ObjectEnv.calls]
  | delete => simp [otherReq, handle, deleteObj, ht, hn, hf, hp, ObjectEnv.calls]
  | get => exact absurd rfl hop

/-- The anonymous token has no permission to write. -/
theorem otherReq_forbidden [Inhabited V] {op : ObjectOp} {objType : String} (hop : op ≠ .get)
    (hkind : ¬ Dedicated objType) :
    ¬ (otherReq op objType : ObjectReq V).Permits (anonymous 0) := by
  have hadmin : (anonymous 0).isInferxAdmin = false := by decide +kernel
  have hns : (anonymous 0).isNamespaceAdmin "acme" "prod" = false := by decide +kernel
  simp only [Dedicated, not_or] at hkind
  obtain ⟨ht, hn, -, -⟩ := hkind
  cases op with
  | get => exact absurd rfl hop
  | create => simp [otherReq, ObjectReq.Permits, ObjectReq.op, ObjectReq.objType, ObjectReq.tenant,
      ObjectReq.nameSpace, writePermitted, ht, hn, hadmin, hns]
  | update => simp [otherReq, ObjectReq.Permits, ObjectReq.op, ObjectReq.objType, ObjectReq.tenant,
      ObjectReq.nameSpace, writePermitted, ht, hn, hadmin, hns]
  | delete => simp [otherReq, ObjectReq.Permits, ObjectReq.op, ObjectReq.objType, ObjectReq.tenant,
      ObjectReq.nameSpace, writePermitted, ht, hn, hadmin, hns]

/-- **Who may reach the state service.** For an operation and a kind of object,
every request of every token asks for the permission exactly when the operation
is a read or the kind has a handler of its own. -/
theorem objects_authorised_iff [Inhabited V] (op : ObjectOp) (objType : String) :
    (∀ (env : ObjectEnv V) (token : AccessToken) (req : ObjectReq V), Issued token →
      req.op = op → req.objType = objType → Authorised env token req) ↔
      op = .get ∨ Dedicated objType := by
  constructor
  · intro h
    by_contra hno
    obtain ⟨hop, hkind⟩ := not_or.mp hno
    have hauth := h openEnv (anonymous 0) (otherReq op objType) (.anonymous 0)
      (by cases op <;> rfl) (by cases op <;> rfl)
    exact otherReq_forbidden hop hkind (hauth (otherReq_calls _ hop hkind))
  · rintro hkind env token req htoken rfl rfl
    exact authorised_of_dedicated htoken hkind

/-- A caller without a login writes a function status. -/
theorem funcstatus_written_anonymously :
    ¬ ∀ (env : ObjectEnv String) (token : AccessToken) (req : ObjectReq String), Issued token →
      Authorised env token req := by
  intro h
  have hauth := h openEnv (anonymous 0) (otherReq .update "funcstatus") (.anonymous 0)
  exact otherReq_forbidden (by decide) (by unfold Dedicated; decide)
    (hauth (otherReq_calls _ (by decide) (by unfold Dedicated; decide)))

end Rule

end Inferx.Gateway
