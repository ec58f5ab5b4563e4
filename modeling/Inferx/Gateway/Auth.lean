import Mathlib
import Inferx.Lib.Strs
import Inferx.Lib.Map

/-!
# Access tokens and API keys

What a caller of the gateway may do is decided by its `AccessToken`: a set of
role strings, a scope, and for a token made from an API key the tenant and the
namespace the key is restricted to. The predicates `isTenantUser` to
`isInferxAdmin` are asked by every handler; the lists `adminTenants` to
`userNamespaces` read the same roles the other way round. A key is restricted
twice: `applyApikeyRestrictions` drops the roles outside the restriction, and the
predicates look at the restriction again.

Times are in nanoseconds, of `SystemTime` for tokens and of `NaiveDateTime` for keys.
-/

namespace Inferx.Gateway

/-- The set of the source's standard library. -/
abbrev BTreeSet (α : Type) [Ord α] : Type := Std.ExtTreeSet α compare

/-- Why a request about tokens and keys fails. -/
inductive AuthError where
  /-- a free-text error -/
  | commonError (msg : String)
  /-- the caller may not -/
  | noPermission
  /-- an assertion or an addition of the standard library panics -/
  | panicked
  deriving DecidableEq, Repr

/-- One second. -/
def second : ℕ := 1000000000

/-- One day. -/
def day : ℕ := 86400 * second

/-! ## Tokens -/

/-- A caller of the gateway. -/
structure AccessToken where
  /-- its name -/
  username : String
  /-- its role strings -/
  roles : BTreeSet String
  /-- the API keys of the user -/
  apiKeys : List String := []
  /-- the access level -/
  scope : String := "full"
  /-- made from an API key -/
  sourceIsApikey : Bool := false
  /-- the tenant an API key is restricted to -/
  restrictTenant : Option String := none
  /-- the namespace an API key is restricted to -/
  restrictNamespace : Option String := none
  /-- when it was made -/
  updatetime : ℕ := 0
  deriving DecidableEq

namespace AccessToken

def inferxAdmin : String := "inferx_admin"
def systemTenant : String := "system"
def tenantAdmin : String := "/tenant/admin/"
def tenantUser : String := "/tenant/user/"
def namespaceAdmin : String := "/namespace/admin/"
def namespaceUser : String := "/namespace/user/"

/-- `AccessToken::New`: the token of a user with the given roles and keys. -/
def new (username : String) (groups apikeys : List String) (now : ℕ) : AccessToken where
  username := username
  roles := .ofList groups
  apiKeys := apikeys
  updatetime := now

/-- `ScopeLevel`; a scope that is none of the three counts as full. -/
def scopeLevel (scope : String) : ℕ :=
  if scope = "full" then 3
  else if scope = "read" then 2
  else if scope = "inference" then 1
  else 3

def tenantUserRole (tenant : String) : String := tenantUser ++ tenant
def tenantAdminRole (tenant : String) : String := tenantAdmin ++ tenant
def namespaceUserRole (tenant nameSpace : String) : String :=
  namespaceUser ++ (tenant ++ ("/" ++ nameSpace))
def namespaceAdminRole (tenant nameSpace : String) : String :=
  namespaceAdmin ++ (tenant ++ ("/" ++ nameSpace))

variable (t : AccessToken)

def checkScope (required : String) : Bool := scopeLevel required ≤ scopeLevel t.scope

def hasInferxAdminIdentity : Bool :=
  t.username == inferxAdmin || t.roles.contains (tenantAdmin ++ systemTenant)

def isSystemScopedInferxAdminApikey : Bool :=
  t.sourceIsApikey && t.checkScope "full" && t.restrictTenant == some systemTenant &&
    t.restrictNamespace.isNone && t.hasInferxAdminIdentity

def allowTenant (tenant : String) : Bool :=
  if t.isSystemScopedInferxAdminApikey then true
  else match t.restrictTenant with
    | some r => r == tenant
    | none => true

def allowNamespace (tenant nameSpace : String) : Bool :=
  if !t.allowTenant tenant then false
  else match t.restrictNamespace with
    | some r => r == nameSpace
    | none => true

def hasTenantAdminRole (tenant : String) : Bool := t.roles.contains (tenantAdminRole tenant)

def hasTenantUserRole (tenant : String) : Bool := t.roles.contains (tenantUserRole tenant)

def hasNamespaceAdminRole (tenant nameSpace : String) : Bool :=
  t.roles.contains (namespaceAdminRole tenant nameSpace)

def hasNamespaceUserRole (tenant nameSpace : String) : Bool :=
  t.roles.contains (namespaceUserRole tenant nameSpace)

def isInferxAdmin : Bool :=
  if t.sourceIsApikey && !t.checkScope "full" then false
  else if t.sourceIsApikey && (t.restrictTenant.isSome || t.restrictNamespace.isSome) &&
      !t.isSystemScopedInferxAdminApikey then false
  else t.hasInferxAdminIdentity

def hasTenantUserPermission (tenant : String) : Bool :=
  if t.isInferxAdmin then true
  else if tenant == "public" then true
  else t.hasTenantUserRole tenant || t.hasTenantAdminRole tenant

def hasNamespaceAdminPermission (tenant nameSpace : String) : Bool :=
  if t.isInferxAdmin then true
  else t.hasTenantAdminRole tenant || t.hasNamespaceAdminRole tenant nameSpace

def hasNamespaceUserPermission (tenant nameSpace : String) : Bool :=
  if t.isInferxAdmin then true
  else if tenant == "public" then true
  else if t.hasTenantUserPermission tenant then true
  else t.hasNamespaceUserRole tenant nameSpace || t.hasNamespaceAdminPermission tenant nameSpace

def isTenantUser (tenant : String) : Bool :=
  if !t.checkScope "read" then false
  else if !t.allowTenant tenant then false
  else t.hasTenantUserPermission tenant

def isNamespaceUser (tenant nameSpace : String) : Bool :=
  if !t.checkScope "read" then false
  else if !t.allowNamespace tenant nameSpace then false
  else t.hasNamespaceUserPermission tenant nameSpace

def isNamespaceInferenceUser (tenant nameSpace : String) : Bool :=
  if !t.checkScope "inference" then false
  else if tenant == "public" then true
  else if !t.allowNamespace tenant nameSpace then false
  else t.hasNamespaceUserPermission tenant nameSpace

def isTenantAdmin (tenant : String) : Bool :=
  if !t.checkScope "full" then false
  else if !t.allowTenant tenant then false
  else if t.isInferxAdmin then true
  else t.hasTenantAdminRole tenant

def isNamespaceAdmin (tenant nameSpace : String) : Bool :=
  if !t.checkScope "full" then false
  else if !t.allowNamespace tenant nameSpace then false
  else t.hasNamespaceAdminPermission tenant nameSpace

/-! ## The lists of a token -/

/-- The two halves of `tenant/namespace`; the source asserts that there are two. -/
def splitPair (s : String) : Option (String × String) :=
  match Strs.splitOnChar '/' s with
  | [tenant, nameSpace] => some (tenant, nameSpace)
  | _ => none

def adminTenants : List String :=
  (Strs.prefixRange tenantAdmin t.roles.toList).filter t.allowTenant

/-- `none` is the assertion that fails. -/
def adminNamespaces : Option (List (String × String)) := do
  let pairs ← (Strs.prefixRange namespaceAdmin t.roles.toList).mapM splitPair
  return pairs.filter fun p => t.allowNamespace p.1 p.2

/-- The tenants of the user and of the administrator roles in order, and `public` after them. -/
def userTenants : List String :=
  let items : BTreeSet String := .ofList
    ((Strs.prefixRange tenantUser t.roles.toList).filter t.allowTenant ++ t.adminTenants)
  items.toList ++ if t.allowTenant "public" then ["public"] else []

/-- The order of the pairs in the set they are collected in. -/
def pairLe (a b : String × String) : Bool := a.1 < b.1 || (a.1 == b.1 && a.2 ≤ b.2)

def userNamespaces : Option (List (String × String)) := do
  let pairs ← (Strs.prefixRange namespaceUser t.roles.toList).mapM splitPair
  let admins ← t.adminNamespaces
  return ((pairs.filter fun p => t.allowNamespace p.1 p.2) ++ admins).dedup.mergeSort pairLe

end AccessToken

/-! ## API keys -/

/-- A row of the table of API keys. -/
structure Apikey where
  /-- the key itself -/
  apikey : String
  /-- whose key it is -/
  username : String
  /-- its name -/
  keyname : String
  /-- `full`, `read` or `inference` -/
  accessLevel : String
  /-- its tenant -/
  restrictTenant : Option String
  /-- its namespace -/
  restrictNamespace : Option String := none
  /-- the last moment it is valid -/
  expiresAt : Option ℕ := none
  /-- when it was revoked -/
  revokedAt : Option ℕ := none
  deriving DecidableEq, Repr

/-- The body of a request for a key. -/
structure ApikeyCreateRequest where
  username : String := ""
  keyname : String
  accessLevel : Option String := none
  restrictTenant : Option String := none
  restrictNamespace : Option String := none
  expiresInDays : Option UInt32 := none

def validateScope (scope : String) : Except AuthError Unit :=
  if scope = "full" ∨ scope = "inference" ∨ scope = "read" then .ok ()
  else .error (.commonError ("invalid apikey access_level " ++ scope))

def normalizeRequiredTenant : Option String → Except AuthError String
  | some t =>
    if (Strs.trimWhite t).isEmpty then .error (.commonError "restrict_tenant cannot be empty")
    else .ok (Strs.trimWhite t)
  | none => .error (.commonError "restrict_tenant is required")

def normalizeOptionalNamespace : Option String → Except AuthError (Option String)
  | some ns =>
    if (Strs.trimWhite ns).isEmpty then
      .error (.commonError "restrict_namespace cannot be empty")
    else .ok (some (Strs.trimWhite ns))
  | none => .ok none

/-- Whether a role with the given pieces stays with a key. -/
def partsAllowed (restrictTenant : String) (restrictNamespace : Option String) :
    List String → Bool
  | ["tenant", _, tenant] =>
    -- namespace-restricted keys cannot retain tenant-level roles
    tenant == restrictTenant && restrictNamespace.isNone
  | ["namespace", _, tenant, nameSpace] =>
    tenant == restrictTenant && restrictNamespace.all (nameSpace == ·)
  | _ => false

def roleAllowedByRestriction (role restrictTenant : String) (restrictNamespace : Option String) :
    Bool :=
  partsAllowed restrictTenant restrictNamespace
    (Strs.splitOnChar '/' (Strs.trimMatches '/' role))

/-- The token of a key with its restriction already normalized. -/
def restricted (base : AccessToken) (scope tenant : String) (nameSpace : Option String) (now : ℕ) :
    AccessToken where
  username := base.username
  roles := base.roles.filter fun r => roleAllowedByRestriction r tenant nameSpace
  apiKeys := base.apiKeys
  scope := scope
  sourceIsApikey := true
  restrictTenant := some tenant
  restrictNamespace := nameSpace
  updatetime := now

def applyApikeyRestrictions (base : AccessToken) (apikey : Apikey) (now : ℕ) :
    Except AuthError AccessToken := do
  validateScope apikey.accessLevel
  let tenant ← normalizeRequiredTenant apikey.restrictTenant
  let nameSpace ← normalizeOptionalNamespace apikey.restrictNamespace
  return restricted base apikey.accessLevel tenant nameSpace now

/-- The rules for the key an InferX administrator makes for itself. -/
def adminSelfKey (req : ApikeyCreateRequest) :
    Except AuthError (String × String × Option String) := do
  if req.restrictTenant.any fun t => Strs.trimWhite t != AccessToken.systemTenant then
    throw (.commonError "inferx admin self apikey restrict_tenant must be 'system'")
  if req.restrictNamespace.any fun ns => !(Strs.trimWhite ns).isEmpty then
    throw (.commonError "inferx admin self apikey does not allow restrict_namespace")
  if req.accessLevel.any fun l => Strs.trimWhite l != "full" then
    throw (.commonError "inferx admin self apikey access_level must be full")
  return ("full", AccessToken.systemTenant, none)

/-- The level and the restriction of any other key. -/
def requestedKey (token : AccessToken) (req : ApikeyCreateRequest) :
    Except AuthError (String × String × Option String) := do
  let accessLevel := req.accessLevel.getD "inference"
  validateScope accessLevel
  let tenant ← normalizeRequiredTenant req.restrictTenant
  let nameSpace ← normalizeOptionalNamespace req.restrictNamespace
  if !token.isInferxAdmin then
    match nameSpace with
    -- either the tenant-level permission or the one for that exact namespace
    | some ns =>
      if !token.isTenantUser tenant && !token.isNamespaceUser tenant ns then
        throw .noPermission
    | none =>
      if !token.isTenantUser tenant then
        throw .noPermission
  return (accessLevel, tenant, nameSpace)

/-- Whose key a request is about. -/
def keyOwner (token : AccessToken) (username : String) : Except AuthError String :=
  if username = "" then .ok token.username
  else if username = token.username then .ok token.username
  else if !token.isInferxAdmin then .error .noPermission
  else .ok username

/-- `NaiveDateTime + Duration::days`, which panics behind the last representable time. -/
def expiry (now lastTime : ℕ) : Option UInt32 → Except AuthError (Option ℕ)
  | some d =>
    if now + d.toNat * day ≤ lastTime then .ok (some (now + d.toNat * day)) else .error .panicked
  | none => .ok none

/-- `TokenCache::CreateApikey`: the row that is inserted for the fresh key `raw`. -/
def createApikey (token : AccessToken) (req : ApikeyCreateRequest) (raw : String)
    (now lastTime : ℕ) : Except AuthError Apikey := do
  let username ← keyOwner token req.username
  if (Strs.trimWhite req.keyname).isEmpty then
    throw (.commonError "apikey keyname cannot be empty")
  let key ← if token.isInferxAdmin && username == token.username then adminSelfKey req
    else requestedKey token req
  let expiresAt ← expiry now lastTime req.expiresInDays
  return { apikey := raw, username := username, keyname := req.keyname, accessLevel := key.1,
           restrictTenant := some key.2.1, restrictNamespace := key.2.2, expiresAt := expiresAt }

end Inferx.Gateway
