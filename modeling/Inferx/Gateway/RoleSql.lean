import Inferx.Lib.Sql
import Inferx.Gateway.TokenCache
import Inferx.Metastore.Scoping

/-!
# The statements about roles

`AddRole` binds its arguments. `GetRoles` and `DeleteRole` write the user name between
quotes into the text of the statement, and the database reads the text. What a statement
means is decided here from its text alone: a name without a quote is read back as one
literal, and the statement is about the rows of that user; a name with a quote never is, for
all literals of the text are then shorter than the name.
-/

namespace Inferx.Gateway.RoleSql

open TokenCache AccessToken Sql Metastore

/-! ## Statements -/

/-- The columns of `UserRole`. -/
inductive Column where
  | username
  | rolename
  deriving DecidableEq

def column (w : List Char) : Option Column :=
  if w = "username".toList then some .username
  else if w = "rolename".toList then some .rolename
  else none

def row (e : String × String) : Column → String
  | .username => e.1
  | .rolename => e.2

/-- The text of `GetRoles`. -/
def getRolesQuery (username : String) : String :=
  "select rolename from UserRole where username = '" ++ username ++ "'"

/-- The text of `DeleteRole`. -/
def deleteRoleQuery (username role : String) : String :=
  "delete from UserRole where username = '" ++ username ++ "' and rolename='" ++ role ++ "'"

/-- `select rolename from UserRole where`, and a condition. -/
def selectHead : List (List Char) :=
  ["select".toList, "rolename".toList, "from".toList, "userrole".toList, "where".toList]

/-- `delete from UserRole where`, and a condition. -/
def deleteHead : List (List Char) :=
  ["delete".toList, "from".toList, "userrole".toList, "where".toList]

/-- `SqlSecret::GetRoles`; `none` when the database refuses the statement. -/
def getRoles (db : SqlSecret) (username : String) : Option (List String) :=
  (condition column selectHead (getRolesQuery username).toList).map fun cond =>
    (db.roles.filter fun e => cond.holds (row e)).map Prod.snd

/-- `SqlSecret::DeleteRole`. -/
def deleteRole (db : SqlSecret) (username role : String) : Option SqlSecret :=
  (condition column deleteHead (deleteRoleQuery username role).toList).map fun cond =>
    { db with roles := db.roles.filter fun e => !cond.holds (row e) }

/-! ## Requests -/

inductive Fault where
  | noPermission
  | exist
  | notExist
  | database

/-- The roles that may grant and revoke a role. -/
def managedBy (caller : AccessToken) : Binding → Bool
  | .tenantAdmin tenant => caller.isInferxAdmin || caller.isTenantAdmin tenant
  | .tenantUser tenant => caller.isInferxAdmin || caller.isTenantAdmin tenant
  | .namespaceAdmin tenant nameSpace =>
    caller.isInferxAdmin || caller.isTenantAdmin tenant || caller.isNamespaceAdmin tenant nameSpace
  | .namespaceUser tenant nameSpace =>
    caller.isInferxAdmin || caller.isTenantAdmin tenant || caller.isNamespaceAdmin tenant nameSpace

section Requests

variable (db : SqlSecret) (caller : AccessToken) (b : Binding) (username : String)
  (apikeys : List String) (now : ℕ)

/-- `GrantTenantRole` and `GrantNamespaceRole`, for a user whose token is not cached. -/
def grantRole : Except Fault Unit × SqlSecret :=
  if !managedBy caller b then (.error .noPermission, db)
  else match getRoles db username with
    | none => (.error .notExist, db)
    | some groups =>
      if b.heldBy (new username groups apikeys now) then (.error .exist, db)
      else match db.addRole username b.role with
        | none => (.error .database, db)
        | some db => (.ok (), db)

/-- `RevokeTenantRole` and `RevokeNamespaceRole`, for a user whose token is not cached. -/
def revokeRole : Except Fault Unit × SqlSecret :=
  if !managedBy caller b then (.error .noPermission, db)
  else match getRoles db username with
    | none => (.error .notExist, db)
    | some groups =>
      if !b.heldBy (new username groups apikeys now) then (.error .notExist, db)
      else match deleteRole db username b.role with
        | none => (.error .database, db)
        | some db => (.ok (), db)

end Requests

/-! ## What is promised -/

/-- The tenant and the namespace of a role have names that are accepted. -/
def Valid : Binding → Prop
  | .tenantAdmin tenant => validateName tenant = true
  | .tenantUser tenant => validateName tenant = true
  | .namespaceAdmin tenant nameSpace => validateName tenant = true ∧ validateName nameSpace = true
  | .namespaceUser tenant nameSpace => validateName tenant = true ∧ validateName nameSpace = true

/-- The roles in the tenant and the namespace of a role, and that of the administrators of
the system tenant, which counts for every tenant. -/
def asked : Binding → List String
  | .tenantAdmin tenant => [tenantAdminRole systemTenant, tenantAdminRole tenant]
  | .tenantUser tenant =>
    [tenantAdminRole systemTenant, tenantAdminRole tenant, tenantUserRole tenant]
  | .namespaceAdmin tenant nameSpace =>
    [tenantAdminRole systemTenant, tenantAdminRole tenant, namespaceAdminRole tenant nameSpace]
  | .namespaceUser tenant nameSpace =>
    [tenantAdminRole systemTenant, tenantAdminRole tenant, tenantUserRole tenant,
      namespaceAdminRole tenant nameSpace, namespaceUserRole tenant nameSpace]

/-- Two databases say the same about what a request for a role of a user asks. -/
def SameAbout (username : String) (b : Binding) (db db' : SqlSecret) : Prop :=
  ∀ r ∈ asked b, (username, r) ∈ db.roles ↔ (username, r) ∈ db'.roles

/-- The rows other than that of a role of a user. -/
def others (username : String) (b : Binding) (db : SqlSecret) : List (String × String) :=
  db.roles.filter fun e => e ≠ (username, b.role)

/-- Role administration affects the named user only. -/
structure OnlyNamed (username : String) : Prop where
  reads : ∀ db : SqlSecret, getRoles db username = some (db.getRoles username)
  removes : ∀ (db : SqlSecret) (b : Binding), Valid b →
    deleteRole db username b.role = some (db.deleteRole username b.role)
  changes : ∀ (db : SqlSecret) (caller : AccessToken) (b : Binding) (apikeys : List String) (now : ℕ),
    Valid b →
    others username b (grantRole db caller b username apikeys now).2 = others username b db ∧
      others username b (revokeRole db caller b username apikeys now).2 = others username b db
  depends : ∀ (db db' : SqlSecret) (caller : AccessToken) (b : Binding) (apikeys : List String)
    (now : ℕ), Valid b → SameAbout username b db db' →
    (grantRole db caller b username apikeys now).1 = (grantRole db' caller b username apikeys now).1 ∧
      (revokeRole db caller b username apikeys now).1 =
        (revokeRole db' caller b username apikeys now).1

/-- The name is one literal between quotes. -/
structure Unquoted (s : String) : Prop where
  quote : '\'' ∉ s.toList
  nul : '\x00' ∉ s.toList

/-! ## Names without a quote -/

variable {username role : String}

theorem toList_getRolesQuery (username : String) : (getRolesQuery username).toList =
    "select rolename from UserRole where username = '".toList ++ (username.toList ++ ['\'']) := by
  unfold getRolesQuery
  rw [String.toList_append, String.toList_append, List.append_assoc]
  rfl

theorem toList_deleteRoleQuery (username role : String) : (deleteRoleQuery username role).toList =
    "delete from UserRole where username = '".toList ++ (username.toList ++
      ("' and rolename='".toList ++ (role.toList ++ ['\'']))) := by
  unfold deleteRoleQuery
  simp only [String.toList_append, List.append_assoc]
  rfl

/-- `username = ` -/
def usernameIs : List Token := [.word "username".toList, .symbol ['=']]

/-- The tokens before the name. -/
theorem runs_selectHead : runs .start "select rolename from UserRole where username = '".toList =
    some (selectHead.map Token.word ++ usernameIs, .inside []) := by
  decide +kernel

theorem runs_deleteHead : runs .start "delete from UserRole where username = '".toList =
    some (deleteHead.map Token.word ++ usernameIs, .inside []) := by
  decide +kernel

/-- The quote that closes a literal. -/
theorem runs_close (s : List Char) : runs (.inside s) ['\''] = some ([], .quote s) := rfl

theorem lex_getRolesQuery (h : '\'' ∉ username.toList) : lex (getRolesQuery username).toList =
    some (selectHead.map Token.word ++ (usernameIs ++ [.literal username.toList])) := by
  have hruns := runs_of_append runs_selectHead (runs_of_append (runs_inside [] h) (runs_close _))
  rw [toList_getRolesQuery]
  unfold lex
  rw [hruns]
  rfl

theorem nul_not_mem_getRolesQuery (h : '\x00' ∉ username.toList) :
    '\x00' ∉ (getRolesQuery username).toList := by
  rw [toList_getRolesQuery, List.mem_append, List.mem_append, not_or, not_or]
  exact ⟨by decide, h, by decide⟩

/-- **What `GetRoles` asks** for a name without a quote. -/
theorem condition_getRolesQuery (h : Unquoted username) :
    condition column selectHead (getRolesQuery username).toList =
      some (.same (.col .username) (.lit username)) := by
  unfold condition
  rw [if_neg (nul_not_mem_getRolesQuery h.nul), lex_getRolesQuery h.quote]
  simp only [Option.bind_eq_bind, Option.bind_some]
  rw [if_pos (List.prefix_append ..), List.drop_left' (by rfl)]
  have hparse : parse column 45 .or (usernameIs ++ [.literal username.toList]) =
      some (.same (.col .username) (.lit (String.ofList username.toList)), []) := rfl
  rw [String.ofList_toList] at hparse
  exact hparse ▸ rfl

/-- ` and rolename=` -/
def andRolenameIs : List Token := [.word "and".toList, .word "rolename".toList, .symbol ['=']]

theorem runs_between (s : List Char) : runs (.inside s) "' and rolename='".toList =
    some (.literal s :: andRolenameIs, .inside []) := rfl

theorem lex_deleteRoleQuery (h : '\'' ∉ username.toList) (hrole : '\'' ∉ role.toList) :
    lex (deleteRoleQuery username role).toList = some (deleteHead.map Token.word ++
      (usernameIs ++ (.literal username.toList :: (andRolenameIs ++ [.literal role.toList])))) := by
  have hruns := runs_of_append runs_deleteHead (runs_of_append (runs_inside [] h)
    (runs_of_append (runs_between _) (runs_of_append (runs_inside [] hrole) (runs_close _))))
  rw [toList_deleteRoleQuery]
  unfold lex
  rw [hruns]
  rfl

/-- **What `DeleteRole` asks** for names without a quote. -/
theorem condition_deleteRoleQuery (h : Unquoted username) (hrole : Unquoted role) :
    condition column deleteHead (deleteRoleQuery username role).toList =
      some (.and (.same (.col .username) (.lit username)) (.same (.col .rolename) (.lit role))) := by
  have hnul : '\x00' ∉ (deleteRoleQuery username role).toList := by
    rw [toList_deleteRoleQuery]
    simp only [List.mem_append, not_or]
    exact ⟨by decide, h.nul, by decide, hrole.nul, by decide⟩
  unfold condition
  rw [if_neg hnul, lex_deleteRoleQuery h.quote hrole.quote]
  simp only [Option.bind_eq_bind, Option.bind_some]
  rw [if_pos (List.prefix_append ..), List.drop_left' (by rfl)]
  have hparse : parse column 60 .or
      (usernameIs ++ (.literal username.toList :: (andRolenameIs ++ [.literal role.toList]))) =
      some (.and (.same (.col .username) (.lit (String.ofList username.toList)))
        (.same (.col .rolename) (.lit (String.ofList role.toList))), []) := rfl
  rw [String.ofList_toList, String.ofList_toList] at hparse
  exact hparse ▸ rfl

theorem getRoles_eq (h : Unquoted username) (db : SqlSecret) :
    getRoles db username = some (db.getRoles username) := by
  unfold getRoles SqlSecret.getRoles
  rw [condition_getRolesQuery h, Option.map_some]
  refine congrArg (fun l : List (String × String) => some (l.map Prod.snd)) (List.filter_congr fun e _ => ?_)
  simp [Expr.holds, Expr.eval, row, Bool.beq_eq_decide_eq]

theorem deleteRole_eq (h : Unquoted username) (hrole : Unquoted role) (db : SqlSecret) :
    deleteRole db username role = some (db.deleteRole username role) := by
  unfold deleteRole SqlSecret.deleteRole
  rw [condition_deleteRoleQuery h hrole, Option.map_some]
  refine congrArg (fun l => some { db with roles := l }) (List.filter_congr fun e _ => ?_)
  simp [Expr.holds, Expr.eval, row, Prod.ext_iff]

theorem unquoted_append {s t : String} (hs : Unquoted s) (ht : Unquoted t) : Unquoted (s ++ t) := by
  refine ⟨?_, ?_⟩
  · rw [String.toList_append, List.mem_append, not_or]
    exact ⟨hs.quote, ht.quote⟩
  · rw [String.toList_append, List.mem_append, not_or]
    exact ⟨hs.nul, ht.nul⟩

theorem unquoted_of_validateName {s : String} (h : validateName s = true) : Unquoted s :=
  ⟨fun hmem => absurd (List.all_eq_true.mp h _ hmem) (by decide),
    fun hmem => absurd (List.all_eq_true.mp h _ hmem) (by decide)⟩

theorem unquoted_role {b : Binding} (h : Valid b) : Unquoted b.role := by
  cases b with
  | tenantAdmin tenant => exact unquoted_append ⟨by decide, by decide⟩ (unquoted_of_validateName h)
  | tenantUser tenant => exact unquoted_append ⟨by decide, by decide⟩ (unquoted_of_validateName h)
  | namespaceAdmin tenant nameSpace | namespaceUser tenant nameSpace =>
    exact unquoted_append ⟨by decide, by decide⟩ (unquoted_append (unquoted_of_validateName h.1)
      (unquoted_append ⟨by decide, by decide⟩ (unquoted_of_validateName h.2)))

/-! ## Requests -/

theorem contains_new {groups apikeys : List String} {now : ℕ} {r : String} :
    (new username groups apikeys now).roles.contains r = groups.contains r :=
  Std.ExtTreeSet.contains_ofList

/-- What the check of a request finds depends on the roles it asks about. -/
theorem heldBy_congr {b : Binding} {groups groups' apikeys : List String} {now : ℕ}
    (h : ∀ r ∈ asked b, groups.contains r = groups'.contains r) :
    b.heldBy (new username groups apikeys now) = b.heldBy (new username groups' apikeys now) := by
  cases b <;>
    simp only [asked, List.forall_mem_cons, tenantAdminRole] at h <;>
    simp only [Binding.heldBy, isTenantAdmin, isTenantUser, isNamespaceAdmin, isNamespaceUser,
      hasTenantUserPermission, hasNamespaceAdminPermission, hasNamespaceUserPermission,
      hasTenantAdminRole, hasTenantUserRole, hasNamespaceAdminRole, hasNamespaceUserRole,
      isInferxAdmin, hasInferxAdminIdentity, contains_new, tenantAdminRole, h] <;> rfl

theorem contains_getRoles (db : SqlSecret) (r : String) :
    (db.getRoles username).contains r = true ↔ (username, r) ∈ db.roles := by
  unfold SqlSecret.getRoles
  rw [List.contains_iff_mem, List.mem_map]
  constructor
  · rintro ⟨⟨u, s⟩, he, rfl⟩
    rw [List.mem_filter, beq_iff_eq] at he
    exact he.2 ▸ he.1
  · exact fun h => ⟨_, List.mem_filter.mpr ⟨h, beq_self_eq_true _⟩, rfl⟩

theorem SameAbout.heldBy {b : Binding} {db db' : SqlSecret} (h : SameAbout username b db db')
    (apikeys : List String) (now : ℕ) :
    b.heldBy (new username (db.getRoles username) apikeys now) =
      b.heldBy (new username (db'.getRoles username) apikeys now) := by
  refine heldBy_congr fun r hr => ?_
  rw [Bool.eq_iff_iff, contains_getRoles, contains_getRoles]
  exact h r hr

theorem role_mem_asked (b : Binding) : b.role ∈ asked b := by
  cases b <;> simp [Binding.role, asked]

theorem others_addRole {b : Binding} {db db' : SqlSecret}
    (h : db.addRole username b.role = some db') : others username b db' = others username b db := by
  unfold SqlSecret.addRole at h
  split at h
  · cases h
  · cases h
    unfold others
    rw [List.filter_append, List.filter_singleton]
    simp

theorem others_deleteRole (b : Binding) (db : SqlSecret) :
    others username b (db.deleteRole username b.role) = others username b db := by
  unfold others SqlSecret.deleteRole
  rw [List.filter_filter]
  simp

section Requests

variable {caller : AccessToken} {b : Binding} {apikeys : List String} {now : ℕ}

theorem others_grantRole (h : Unquoted username) (db : SqlSecret) :
    others username b (grantRole db caller b username apikeys now).2 = others username b db := by
  unfold grantRole
  split
  · rfl
  rw [getRoles_eq h]
  simp only
  split
  · rfl
  rcases hadd : db.addRole username b.role with _ | db'
  · rfl
  · exact others_addRole hadd

theorem others_revokeRole (h : Unquoted username) (hb : Valid b) (db : SqlSecret) :
    others username b (revokeRole db caller b username apikeys now).2 = others username b db := by
  unfold revokeRole
  split
  · rfl
  rw [getRoles_eq h]
  simp only
  split
  · rfl
  rw [deleteRole_eq h (unquoted_role hb)]
  exact others_deleteRole b db

theorem grantRole_congr (h : Unquoted username) {db db' : SqlSecret}
    (hsame : SameAbout username b db db') : (grantRole db caller b username apikeys now).1 =
      (grantRole db' caller b username apikeys now).1 := by
  unfold grantRole
  rw [getRoles_eq h, getRoles_eq h]
  simp only [hsame.heldBy]
  split
  · rfl
  split
  · rfl
  have hrole := hsame b.role (role_mem_asked b)
  unfold SqlSecret.addRole
  by_cases hmem : (username, b.role) ∈ db.roles
  · rw [if_pos hmem, if_pos (hrole.mp hmem)]
  · rw [if_neg hmem, if_neg (hmem ∘ hrole.mpr)]

theorem revokeRole_congr (h : Unquoted username) (hb : Valid b) {db db' : SqlSecret}
    (hsame : SameAbout username b db db') : (revokeRole db caller b username apikeys now).1 =
      (revokeRole db' caller b username apikeys now).1 := by
  unfold revokeRole
  rw [getRoles_eq h, getRoles_eq h, deleteRole_eq h (unquoted_role hb),
    deleteRole_eq h (unquoted_role hb)]
  simp only [hsame.heldBy]
  split
  · rfl
  split <;> rfl

end Requests

/-! ## Names with a quote -/

/-- Two rows that a condition without their names cannot tell apart. -/
theorem alike_rows {u u' r : String} (hr : r ≠ u ∧ r ≠ u') (c : Column) :
    Alike u u' (row (u, r) c) (row (u', r) c) := by
  cases c with
  | username => exact .inr ⟨rfl, rfl⟩
  | rolename => exact .inl ⟨rfl, hr⟩

/-- A statement about a name with a quote has shorter literals only. -/
theorem literals_short (h : '\'' ∈ username.toList) {cond : Expr Column}
    (hcond : condition column selectHead (getRolesQuery username).toList = some cond) :
    ∀ s ∈ cond.literals, s.toList.length < username.toList.length := by
  obtain ⟨-, ts, hlex, hlit⟩ := condition_literals hcond
  rw [toList_getRolesQuery] at hlex
  unfold lex at hlex
  rw [runs_append, runs_selectHead] at hlex
  simp only [Option.bind_eq_bind, Option.bind_some, Option.bind_eq_some_iff] at hlex
  obtain ⟨⟨ts', st⟩, ⟨⟨us, st'⟩, hruns, heq⟩, vs, hfin, heq'⟩ := hlex
  cases heq
  cases heq'
  intro s hs
  have hshort := short_of_quote h hruns hfin
  have hmem := hlit s hs
  rw [List.append_assoc, List.mem_append] at hmem
  rcases hmem with hmem | hmem
  · -- no literal stands before the name
    simp [selectHead, usernameIs] at hmem
  · exact hshort _ hmem

/-- **A name with a quote** is not told apart from a longer one. -/
theorem unquoted_of_reads (h : ∀ db : SqlSecret, getRoles db username = some (db.getRoles username)) :
    Unquoted username := by
  obtain ⟨cond, hcond⟩ : ∃ cond, condition column selectHead (getRolesQuery username).toList =
      some cond := by
    obtain ⟨cond, hcond, -⟩ := Option.map_eq_some_iff.mp (h {})
    exact ⟨cond, hcond⟩
  have hnul : '\x00' ∉ username.toList := fun hmem => (condition_literals hcond).1 (by
    rw [toList_getRolesQuery]
    exact List.mem_append_right _ (List.mem_append_left _ hmem))
  refine ⟨fun hquote => ?_, hnul⟩
  have hshort := literals_short hquote hcond
  have hne : "" ≠ username := by
    rintro rfl
    exact absurd hquote List.not_mem_nil
  have hlen : (username ++ "x").toList.length = username.toList.length + 1 := by
    rw [String.toList_append, List.length_append]
    rfl
  have hlonger : username ≠ username ++ "x" := fun heq => by
    have := congrArg (fun s : String => s.toList.length) heq
    simp only [hlen] at this
    omega
  have hnamed : username ∉ cond.literals ∧ username ++ "x" ∉ cond.literals := by
    constructor
    · exact fun hmem => absurd (hshort _ hmem) (lt_irrefl _)
    · intro hmem
      have := hshort _ hmem
      omega
  -- the table has a row of the user and one of the other name
  have hsame := Expr.holds_congr (alike_rows (r := "") ⟨hne, fun heq => by
    have := congrArg (fun s : String => s.toList.length) heq
    simp only [hlen] at this
    exact absurd this.symm (Nat.succ_ne_zero _)⟩) hnamed
  have hread := h { roles := [(username, ""), (username ++ "x", "")] }
  unfold getRoles SqlSecret.getRoles at hread
  rw [hcond, Option.map_some] at hread
  have hlength := congrArg (fun o : Option (List String) => o.map List.length) hread
  simp [List.filter_cons, hsame, hlonger.symm] at hlength
  split at hlength <;> simp at hlength

/-- **When does role administration affect the named user only?** -/
theorem onlyNamed_iff (username : String) : OnlyNamed username ↔ Unquoted username :=
  ⟨fun h => unquoted_of_reads h.reads, fun h =>
    { reads := getRoles_eq h
      removes := fun db _ hb => deleteRole_eq h (unquoted_role hb) db
      changes := fun db _ _ _ _ hb => ⟨others_grantRole h db, others_revokeRole h hb db⟩
      depends := fun _ _ _ _ _ _ hb hsame => ⟨grantRole_congr h hsame, revokeRole_congr h hb hsame⟩ }⟩

theorem all_roles_read : ¬ ∀ username : String, OnlyNamed username := by
  intro h
  have hread := (h "x' or '1'='1").reads { roles := [("root", tenantAdminRole systemTenant)] }
  exact absurd hread (by decide +kernel)

end Inferx.Gateway.RoleSql
