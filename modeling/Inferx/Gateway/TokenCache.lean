import Inferx.Lib.Runs
import Inferx.Gateway.Apikeys

/-!
# The token cache

`TokenCache` keeps the token of each user and of each API key for a minute. A
look-up that misses reads the database in several steps and then inserts what it
read; a revocation deletes the role in the database and then evicts the user's
entry, together with the keys that a token of the user lists. Both run step by
step among each other, and nothing tells an insert that an eviction has overtaken
it.

`State` is a gateway with its database and its requests in flight, `next` one
step of one of them. `revoked` and `deleted` keep the revocations and the
deletions that have returned, until they are taken back. `Effective` is what they
are for.
-/

namespace Inferx.Gateway.TokenCache

open AccessToken

/-! ## The database -/

/-- The tables `UserRole` and `Apikey`. -/
structure SqlSecret where
  /-- user and role -/
  roles : List (String × String) := []
  /-- the keys in the order of `key_id` -/
  apikeys : List Apikey := []

namespace SqlSecret

variable (db : SqlSecret)

def getRoles (username : String) : List String :=
  (db.roles.filter fun e => e.1 == username).map Prod.snd

/-- The primary key of the table refuses a role that is there. -/
def addRole (username role : String) : Option SqlSecret :=
  if (username, role) ∈ db.roles then none
  else some { db with roles := db.roles ++ [(username, role)] }

def deleteRole (username role : String) : SqlSecret :=
  { db with roles := db.roles.filter fun e => e ≠ (username, role) }

def getApikey (apikey : String) : Option Apikey := db.apikeys.find? fun k => k.apikey == apikey

def getApikeys (username : String) : List String :=
  (db.apikeys.filter fun k => k.username == username).map Apikey.apikey

/-- The column of the keys is unique. -/
def createApikey (key : Apikey) : Option SqlSecret :=
  if db.apikeys.any fun k => k.apikey == key.apikey then none
  else some { db with apikeys := db.apikeys ++ [key] }

def deleteApikey (keyname username : String) : List String × SqlSecret :=
  ((db.apikeys.filter fun k => k.keyname == keyname && k.username == username).map Apikey.apikey,
    { db with apikeys := db.apikeys.filter fun k => !(k.keyname == keyname && k.username == username) })

end SqlSecret

/-! ## Requests in flight -/

/-- The role a request grants or revokes. -/
inductive Binding where
  | tenantAdmin (tenant : String)
  | tenantUser (tenant : String)
  | namespaceAdmin (tenant nameSpace : String)
  | namespaceUser (tenant nameSpace : String)

namespace Binding

/-- Its string in the database. -/
def role : Binding → String
  | tenantAdmin tenant => tenantAdminRole tenant
  | tenantUser tenant => tenantUserRole tenant
  | namespaceAdmin tenant nameSpace => namespaceAdminRole tenant nameSpace
  | namespaceUser tenant nameSpace => namespaceUserRole tenant nameSpace

/-- What the handlers ask the user's token before they grant or revoke. -/
def heldBy (token : AccessToken) : Binding → Bool
  | tenantAdmin tenant => token.isTenantAdmin tenant
  | tenantUser tenant => token.isTenantUser tenant
  | namespaceAdmin tenant nameSpace => token.isNamespaceAdmin tenant nameSpace
  | namespaceUser tenant nameSpace => token.isNamespaceUser tenant nameSpace

end Binding

/-- Who has called `GetTokenByUsername`. -/
inductive Caller where
  /-- a request of the user -/
  | session
  /-- `GetTokenByApikey`, with the row of the key -/
  | byApikey (key : Apikey)
  /-- `RevokeTenantRole` and `RevokeNamespaceRole` -/
  | revoke (b : Binding)
  /-- `GrantTenantRole` and `GrantNamespaceRole` -/
  | grant (b : Binding)

/-- What a request has done when it returns. -/
inductive Outcome where
  | revoked (username role : String)
  | granted
  | deleted (apikeys : List String)
  | created

/-- How far a request is: what it does next. -/
inductive Task where
  /-- look into `apikeyStore` -/
  | keyLookup (apikey : String)
  /-- drop the stale entry -/
  | keyDrop (apikey : String)
  /-- `GetApikey` -/
  | keyRow (apikey : String)
  /-- look into `usernameStore` -/
  | userLookup (username : String) (c : Caller)
  /-- `GetApikeys` -/
  | userKeys (username : String) (old : Option AccessToken) (c : Caller)
  /-- `GetRoles` -/
  | userRoles (username : String) (old : Option AccessToken) (keys : List String) (c : Caller)
  /-- `Replace` -/
  | replace (old : Option AccessToken) (token : AccessToken) (c : Caller)
  /-- insert the token of a key -/
  | keyInsert (apikey : String) (token : AccessToken)
  /-- `DeleteRole` -/
  | deleteRole (username : String) (b : Binding) (token : AccessToken)
  /-- `AddRole` -/
  | addRole (username : String) (b : Binding) (token : AccessToken)
  /-- `EvactionToken`, before it has the lock -/
  | evict (token : AccessToken) (done : Outcome)
  /-- `EvactionToken` under the lock, with the keys still to remove -/
  | evicting (keys : List String) (username : String) (done : Outcome)
  /-- the delete of `DeleteApiKey` -/
  | deleteApikey (keyname username : String)
  /-- the keys it removes from `apikeyStore`, under one lock -/
  | removeKeys (keys : List String) (username : String)
  /-- the insert of `CreateApikey` -/
  | createApikey (key : Apikey)
  /-- drop the user's entry and return -/
  | removeUser (username : String) (done : Outcome)

/-- What one step of a request comes to. -/
inductive Step where
  /-- it goes on -/
  | goOn (t : Task)
  /-- a look-up returns, by key or by name -/
  | answer (apikey : Option String) (token : AccessToken)
  /-- a change returns -/
  | done (d : Outcome)
  /-- the request fails -/
  | failed

/-! ## One step -/

/-- The gateway without its requests. -/
structure Store where
  db : SqlSecret := {}
  apikeyStore : BTreeMap String AccessToken := ∅
  usernameStore : BTreeMap String AccessToken := ∅
  /-- `updatelock` is taken by an eviction -/
  locked : Bool := false
  now : ℕ := 0
  /-- `GATEWAY_CONFIG.inferxAdminApikey` -/
  inferxAdminApikey : String := ""

/-- `AccessToken::Timeout`: a minute has passed, or the clock was set back. -/
def timeout (now : ℕ) (token : AccessToken) : Bool :=
  decide (now < token.updatetime ∨ 60 * second < now - token.updatetime)

def inferxAdminToken (now : ℕ) : AccessToken where
  username := inferxAdmin
  roles := ∅
  updatetime := now

/-- Remove keys from a store. -/
def removeAll (m : BTreeMap String AccessToken) (keys : List String) :
    BTreeMap String AccessToken :=
  keys.foldl (fun m k => m.erase k) m

namespace Store

variable (st : Store)

/-- What the caller of `GetTokenByUsername` does with the token. -/
def resume (username : String) (token : AccessToken) : Caller → Step
  | .session => .answer none token
  | .byApikey key =>
    match applyApikeyRestrictions token key st.now with
    | .ok restricted => .goOn (.keyInsert key.apikey restricted)
    | .error _ => .failed
  | .revoke b => if b.heldBy token then .goOn (.deleteRole username b token) else .failed
  | .grant b => if b.heldBy token then .failed else .goOn (.addRole username b token)

/-- `TokenCache::Replace`. -/
def replace (old : Option AccessToken) (token : AccessToken) : Store :=
  match old with
  | none => { st with usernameStore := st.usernameStore.insert token.username token }
  | some old =>
    { st with
      apikeyStore := removeAll st.apikeyStore old.apiKeys
      usernameStore := (st.usernameStore.erase old.username).insert token.username token }

/-- One step of a request, or `none` when it waits for the lock. -/
def run : Task → Option (Store × Step)
  | .keyLookup k =>
    if st.inferxAdminApikey ≠ "" ∧ k = st.inferxAdminApikey then
      some (st, .answer (some k) (inferxAdminToken st.now))
    else match st.apikeyStore[k]? with
      | some t => some (st, if timeout st.now t then .goOn (.keyDrop k) else .answer (some k) t)
      | none => some (st, .goOn (.keyRow k))
  | .keyDrop k => some ({ st with apikeyStore := st.apikeyStore.erase k }, .goOn (.keyRow k))
  | .keyRow k =>
    match st.db.getApikey k with
    | none => some (st, .failed)
    | some key =>
      if key.revokedAt.isSome || key.expiresAt.any fun e => decide (e < st.now) then
        some (st, .failed)
      else some (st, .goOn (.userLookup key.username (.byApikey key)))
  | .userLookup u c =>
    match st.usernameStore[u]? with
    | some t =>
      some (st, if timeout st.now t then .goOn (.userKeys u (some t) c) else st.resume u t c)
    | none => some (st, .goOn (.userKeys u none c))
  | .userKeys u old c => some (st, .goOn (.userRoles u old (st.db.getApikeys u) c))
  | .userRoles u old keys c =>
    some (st, .goOn (.replace old (AccessToken.new u (st.db.getRoles u) keys st.now) c))
  | .replace old t c =>
    if st.locked then none else some (st.replace old t, st.resume t.username t c)
  | .keyInsert k t =>
    some ({ st with apikeyStore := st.apikeyStore.insert k t }, .answer (some k) t)
  | .deleteRole u b t =>
    some ({ st with db := st.db.deleteRole u b.role }, .goOn (.evict t (.revoked u b.role)))
  | .addRole u b t =>
    match st.db.addRole u b.role with
    | none => some (st, .failed)
    | some db => some ({ st with db := db }, .goOn (.evict t .granted))
  | .evict t d =>
    if st.locked then none
    else some ({ st with locked := true }, .goOn (.evicting t.apiKeys t.username d))
  | .evicting (k :: ks) u d =>
    some ({ st with apikeyStore := st.apikeyStore.erase k }, .goOn (.evicting ks u d))
  | .evicting [] u d =>
    some ({ st with usernameStore := st.usernameStore.erase u, locked := false }, .done d)
  | .deleteApikey name u =>
    match (st.db.deleteApikey name u).1 with
    -- nothing is evicted when no row was deleted
    | [] => some ({ st with db := (st.db.deleteApikey name u).2 }, .done (.deleted []))
    | k :: ks =>
      some ({ st with db := (st.db.deleteApikey name u).2 }, .goOn (.removeKeys (k :: ks) u))
  | .removeKeys keys u =>
    some ({ st with apikeyStore := removeAll st.apikeyStore keys },
      .goOn (.removeUser u (.deleted keys)))
  | .createApikey key =>
    match st.db.createApikey key with
    | none => some (st, .failed)
    | some db => some ({ st with db := db }, .goOn (.removeUser key.username .created))
  | .removeUser u d =>
    some ({ st with usernameStore := st.usernameStore.erase u }, .done d)

end Store

/-! ## Runs -/

/-- The requests there are. -/
inductive Request where
  | getTokenByApikey (apikey : String)
  | getTokenByUsername (username : String)
  | revokeRole (username : String) (b : Binding)
  | grantRole (username : String) (b : Binding)
  | deleteApiKey (keyname username : String)
  | createApikey (key : Apikey)

/-- Where a request starts. That the caller may make it has been checked before. -/
def Request.task : Request → Task
  | getTokenByApikey k => .keyLookup k
  | getTokenByUsername u => .userLookup u .session
  | revokeRole u b => .userLookup u (.revoke b)
  | grantRole u b => .userLookup u (.grant b)
  | deleteApiKey name u => .deleteApikey name u
  | createApikey key => .createApikey key

/-- A request in flight. -/
structure Proc where
  /-- how many steps the gateway had made when it started -/
  born : ℕ
  task : Task

/-- A gateway and its requests. -/
structure State extends Store where
  procs : List Proc := []
  /-- how many steps there were -/
  steps : ℕ := 0
  /-- the revocations that have returned, when, of whom and of what, until the role is granted again -/
  revoked : List (ℕ × String × String) := []
  /-- the deletions that have returned, when and of which key, until the key is created again -/
  deleted : List (ℕ × String) := []
  /-- what the last step returned to its caller: when the look-up started, its key, and the token -/
  last : Option (ℕ × Option String × AccessToken) := none

/-- What can happen. -/
inductive Input where
  /-- a request arrives -/
  | start (r : Request)
  /-- a request makes a step -/
  | run (i : ℕ)
  /-- a request is dropped, or fails at the database -/
  | drop (i : ℕ)
  /-- the clock shows another time -/
  | clock (now : ℕ)

namespace State

variable (s : State)

/-- The revocations with the one that returns now, without those that are granted again. -/
def revokedAfter (st : Store) (new : List (ℕ × String × String)) : List (ℕ × String × String) :=
  (new ++ s.revoked).filter fun e => (e.2.1, e.2.2) ∉ st.db.roles

/-- The deletions with those that return now, without the keys that are created again. -/
def deletedAfter (st : Store) (new : List (ℕ × String)) : List (ℕ × String) :=
  (new ++ s.deleted).filter fun e => st.db.apikeys.all fun k => k.apikey ≠ e.2

/-- What a return adds to the revocations. -/
def newRevoked : Outcome → List (ℕ × String × String)
  | .revoked u r => [(s.steps + 1, u, r)]
  | _ => []

/-- What a return adds to the deletions. -/
def newDeleted : Outcome → List (ℕ × String)
  | .deleted keys => keys.map fun k => (s.steps + 1, k)
  | _ => []

/-- The state after a step of request `i`. -/
def after (i : ℕ) (p : Proc) (st : Store) : Step → State
  | .goOn t =>
    { s with
      toStore := st, procs := s.procs.set i ⟨p.born, t⟩, steps := s.steps + 1
      revoked := s.revokedAfter st [], deleted := s.deletedAfter st [], last := none }
  | .answer k t =>
    { s with
      toStore := st, procs := s.procs.eraseIdx i, steps := s.steps + 1
      revoked := s.revokedAfter st [], deleted := s.deletedAfter st []
      last := some (p.born, k, t) }
  | .done d =>
    { s with
      toStore := st, procs := s.procs.eraseIdx i, steps := s.steps + 1
      revoked := s.revokedAfter st (s.newRevoked d)
      deleted := s.deletedAfter st (s.newDeleted d), last := none }
  | .failed =>
    { s with
      toStore := st, procs := s.procs.eraseIdx i, steps := s.steps + 1
      revoked := s.revokedAfter st [], deleted := s.deletedAfter st [], last := none }

/-- One input. -/
def next : Input → Option State
  | .start r =>
    some { s with procs := s.procs ++ [⟨s.steps, r.task⟩], steps := s.steps + 1, last := none }
  | .run i =>
    match s.procs[i]? with
    | none => none
    | some p =>
      match s.toStore.run p.task with
      | none => none
      | some (st, out) => some (s.after i p st out)
  | .drop i =>
    match s.procs[i]? with
    -- an eviction does not wait for anything
    | some ⟨_, .evicting ..⟩ => none
    | some _ => some { s with procs := s.procs.eraseIdx i, steps := s.steps + 1, last := none }
    | none => none
  | .clock now => some { s with now := now, steps := s.steps + 1, last := none }

end State

/-! ## What a request holds -/

/-- The key whose row the caller has read. -/
def Caller.apikey? : Caller → Option String
  | byApikey key => some key.apikey
  | _ => none

/-- The key a look-up is going to insert, once it has read its row. -/
def Task.apikey? : Task → Option String
  | userLookup _ c => c.apikey?
  | userKeys _ _ c => c.apikey?
  | userRoles _ _ _ c => c.apikey?
  | replace _ _ c => c.apikey?
  | keyInsert k _ => some k
  | _ => none

/-- The token a look-up is about to insert. -/
def Task.token? : Task → Option AccessToken
  | replace _ t _ => some t
  | keyInsert _ t => some t
  | _ => none

/-- A token of a user that carries a role. -/
def carries (username role : String) (t : AccessToken) : Bool :=
  t.username == username && t.roles.contains role

/-! ## The specification -/

/-- **Revocations take effect**: a look-up that started after a revocation has
returned does not return a token with the role, and one by a deleted key does not
return a token at all. -/
def State.Effective (s : State) : Prop :=
  ∀ born key t, s.last = some (born, key, t) →
    (∀ n u r, (n, u, r) ∈ s.revoked → n ≤ born → carries u r t = false) ∧
      ∀ n k, (n, k) ∈ s.deleted → n ≤ born → key ≠ some k

/-- A gateway that has just started, with any database. -/
def Fresh (s : State) : Prop := ∃ db now key, s = { db := db, now := now, inferxAdminApikey := key }

/-- What has to hold when a request is about to return: a revocation leaves no
token of a key with the role in the cache, and no look-up that is about to insert
one; a deletion leaves no token of the key, and no look-up that has read its row. -/
def State.leavesNothing (s : State) : Task → Bool
  | .evicting [] _ (.revoked u r) =>
    decide ((u, r) ∈ s.db.roles) ||
      (s.apikeyStore.toList.all (fun e => !carries u r e.2) &&
        s.procs.all fun p => p.task.token?.all fun t => !carries u r t)
  | .removeUser _ (.deleted keys) =>
    keys.all fun k =>
      s.db.apikeys.any (fun row => row.apikey == k) ||
        (s.apikeyStore[k]?.isNone && (s.procs.all fun p => p.task.apikey? != some k) &&
          (s.inferxAdminApikey == "" || k != s.inferxAdminApikey))
  | _ => true

/-- The steps after which nothing is left of what was revoked or deleted. -/
def State.Settled (s : State) : Input → Prop
  | .run i => ∀ p, s.procs[i]? = some p → s.leavesNothing p.task = true
  | _ => True

end Inferx.Gateway.TokenCache
