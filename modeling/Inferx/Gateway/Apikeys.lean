import Inferx.Gateway.Auth

/-!
# What an API key may do

A key is made from the roles of its owner, an access level, a tenant and
possibly a namespace. `Permission` names the questions a handler can ask, and
`restricted_holds` answers them for a key in terms of the owner's roles. From it:
no key may do more than its owner, its level and its restriction allow
(`restricted_le`), and the lists agree with the predicates exactly for the keys
of `ListsFit`, because the lists look at the restriction and not at the level.
Minting is compared in `Grows`.
-/

namespace Inferx.Gateway

open AccessToken Strs

/-- The questions a handler asks of a token. -/
inductive Permission where
  | tenantUser (tenant : String)
  | tenantAdmin (tenant : String)
  | namespaceUser (tenant nameSpace : String)
  | namespaceAdmin (tenant nameSpace : String)
  | namespaceInferenceUser (tenant nameSpace : String)
  | inferxAdmin
  deriving DecidableEq, Repr

/-- The answer of a token. -/
def AccessToken.holds (t : AccessToken) : Permission → Bool
  | .tenantUser tenant => t.isTenantUser tenant
  | .tenantAdmin tenant => t.isTenantAdmin tenant
  | .namespaceUser tenant ns => t.isNamespaceUser tenant ns
  | .namespaceAdmin tenant ns => t.isNamespaceAdmin tenant ns
  | .namespaceInferenceUser tenant ns => t.isNamespaceInferenceUser tenant ns
  | .inferxAdmin => t.isInferxAdmin

namespace Permission

/-- The access level that a permission asks for: administration needs `full`,
reading `read`, and a call `inference`. -/
def level : Permission → ℕ
  | .tenantAdmin _ | .namespaceAdmin _ _ | .inferxAdmin => 3
  | .tenantUser _ | .namespaceUser _ _ => 2
  | .namespaceInferenceUser _ _ => 1

/-- About nothing but the given tenant and, if there is one, the namespace. -/
def within (tenant : String) (nameSpace : Option String) : Permission → Prop
  | .tenantUser t | .tenantAdmin t => t = tenant ∧ nameSpace = none
  | .namespaceUser t n | .namespaceAdmin t n | .namespaceInferenceUser t n =>
    t = tenant ∧ ∀ r, nameSpace = some r → n = r
  | .inferxAdmin => False

/-- A right to read or to call in the tenant everybody may use. -/
def ofPublic : Permission → Prop
  | .tenantUser t | .namespaceUser t _ | .namespaceInferenceUser t _ => t = "public"
  | .tenantAdmin _ | .namespaceAdmin _ _ | .inferxAdmin => False

end Permission

/-! ## Roles that stay with a key -/

section Roles

variable {tenant : String} {ns : Option String}

/-- Without separators at the end, a text that goes on after a word does so with a separator. -/
theorem rdropWhile_append_word {a l : List Char} (ha : '/' ∉ a) (hne : a ≠ []) :
    ∃ m, (a ++ '/' :: l).rdropWhile (· == '/') = a ++ m ∧ (m = [] ∨ ∃ k, m = '/' :: k) := by
  induction l using List.reverseRecOn with
  | nil =>
    refine ⟨[], ?_, .inl rfl⟩
    rw [List.rdropWhile_concat_pos (· == '/') a '/' (beq_self_eq_true _), List.append_nil,
      List.rdropWhile_eq_self_iff]
    intro _ hlast
    exact ha (beq_iff_eq.mp hlast ▸ List.getLast_mem hne)
  | append_singleton l c ih =>
    rw [← List.cons_append, ← List.append_assoc, List.rdropWhile_concat]
    split
    next => exact ih
    next => exact ⟨'/' :: (l ++ [c]), by simp, .inr ⟨l ++ [c], rfl⟩⟩

/-- The first piece of a role string is its first word. -/
theorem split_trim_word {a : String} {l : List Char} (ha : '/' ∉ a.toList) (hne : a ≠ "") :
    ∃ m, splitOnChar '/' (trimMatches '/' (String.ofList ('/' :: (a.toList ++ '/' :: l)))) =
      a :: m := by
  have hne' : a.toList ≠ [] := by simpa using hne
  have hdrop : ('/' :: (a.toList ++ '/' :: l)).dropWhile (· == '/') = a.toList ++ '/' :: l := by
    rw [List.dropWhile_cons_of_pos (p := (· == '/')) (beq_self_eq_true _)]
    obtain ⟨c, w, hw⟩ := List.exists_cons_of_ne_nil hne'
    rw [hw, List.cons_append, List.dropWhile_cons_of_neg]
    intro hc
    exact ha (hw ▸ beq_iff_eq.mp hc ▸ List.mem_cons_self ..)
  obtain ⟨m, hm, rfl | ⟨k, rfl⟩⟩ := rdropWhile_append_word (l := l) ha hne'
  · refine ⟨[], ?_⟩
    rw [trimMatches, trimWhere, String.toList_ofList, hdrop, hm, List.append_nil,
      String.ofList_toList, splitOnChar_self ha]
  · refine ⟨splitOnChar '/' (String.ofList k), ?_⟩
    rw [trimMatches, trimWhere, String.toList_ofList, hdrop, hm, splitOnChar_append ha]

theorem partsAllowed_tenant {m : List String} (h : partsAllowed tenant ns ("tenant" :: m) = true) :
    ns = none := by
  rcases m with _ | ⟨a, _ | ⟨b, _ | ⟨c, m⟩⟩⟩ <;> simp_all [partsAllowed]

/-- A namespace-restricted key keeps no tenant-level role. -/
theorem roleAllowed_tenantLevel {s : String}
    (h : roleAllowedByRestriction ("/tenant/" ++ s) tenant ns = true) : ns = none := by
  have hstr : "/tenant/" ++ s = String.ofList ('/' :: ("tenant".toList ++ '/' :: s.toList)) := by
    rw [← String.toList_inj, String.toList_ofList, String.toList_append]
    rfl
  obtain ⟨m, hm⟩ := split_trim_word (a := "tenant") (l := s.toList) (by decide) (by decide)
  rw [roleAllowedByRestriction, hstr, hm] at h
  exact partsAllowed_tenant h

theorem tenantAdminRole_eq (t : String) : tenantAdminRole t = "/tenant/" ++ ("admin/" ++ t) := by
  rw [← String.append_assoc]
  rfl

theorem tenantUserRole_eq (t : String) : tenantUserRole t = "/tenant/" ++ ("user/" ++ t) := by
  rw [← String.append_assoc]
  rfl

end Roles

/-! ## The answers of tokens -/

/-- What role strings alone give. -/
def Permission.owned (roles : BTreeSet String) : Permission → Prop
  | .tenantUser t => t = "public" ∨ tenantUserRole t ∈ roles ∨ tenantAdminRole t ∈ roles
  | .tenantAdmin t => tenantAdminRole t ∈ roles
  | .namespaceUser t n | .namespaceInferenceUser t n =>
    t = "public" ∨ tenantUserRole t ∈ roles ∨ tenantAdminRole t ∈ roles ∨
      namespaceUserRole t n ∈ roles ∨ namespaceAdminRole t n ∈ roles
  | .namespaceAdmin t n => tenantAdminRole t ∈ roles ∨ namespaceAdminRole t n ∈ roles
  | .inferxAdmin => False

/-- What the restriction of a key lets through. -/
def Permission.about (tenant : String) (nameSpace : Option String) : Permission → Prop
  | .tenantUser t | .tenantAdmin t => t = tenant
  | .namespaceUser t n | .namespaceAdmin t n | .namespaceInferenceUser t n =>
    t = tenant ∧ ∀ r, nameSpace = some r → n = r
  | .inferxAdmin => False

/-- A call in the tenant everybody may use. -/
def Permission.publicCall : Permission → Prop
  | .namespaceInferenceUser t _ => t = "public"
  | _ => False

theorem Permission.owned_mono {r r' : BTreeSet String} (h : ∀ x ∈ r, x ∈ r') {p : Permission} :
    p.owned r → p.owned r' := by
  cases p <;> simp only [owned] <;> grind

/-- What the restriction of a token lets through. -/
def Permission.allowed (t : AccessToken) : Permission → Prop
  | .tenantUser x | .tenantAdmin x => t.allowTenant x = true
  | .namespaceUser x n | .namespaceAdmin x n | .namespaceInferenceUser x n =>
    t.allowNamespace x n = true
  | .inferxAdmin => False

theorem hasTenantUserPermission_iff (t : AccessToken) (x : String) :
    t.hasTenantUserPermission x = true ↔
      t.isInferxAdmin = true ∨ (Permission.tenantUser x).owned t.roles := by
  unfold hasTenantUserPermission
  simp only [hasTenantUserRole, hasTenantAdminRole, Permission.owned]
  by_cases hA : t.isInferxAdmin = true
  · simp [hA]
  · simp [hA]

theorem hasNamespaceAdminPermission_iff (t : AccessToken) (x n : String) :
    t.hasNamespaceAdminPermission x n = true ↔
      t.isInferxAdmin = true ∨ (Permission.namespaceAdmin x n).owned t.roles := by
  unfold hasNamespaceAdminPermission
  simp only [hasTenantAdminRole, hasNamespaceAdminRole, Permission.owned]
  by_cases hA : t.isInferxAdmin = true
  · simp [hA]
  · simp [hA]

theorem hasNamespaceUserPermission_iff (t : AccessToken) (x n : String) :
    t.hasNamespaceUserPermission x n = true ↔
      t.isInferxAdmin = true ∨ (Permission.namespaceUser x n).owned t.roles := by
  unfold hasNamespaceUserPermission
  have hu := hasTenantUserPermission_iff t x
  have ha := hasNamespaceAdminPermission_iff t x n
  simp only [hasNamespaceUserRole, Permission.owned] at hu ha ⊢
  by_cases hA : t.isInferxAdmin = true
  · simp [hA]
  · by_cases hx : x = "public"
    · simp [hx]
    · simp only [hA, hx, beq_iff_eq, false_or, Bool.false_eq_true, if_false, Bool.if_true_left,
        Bool.or_eq_true, decide_eq_true_eq, hu, ha, Std.ExtTreeSet.contains_iff_mem]
      constructor
      · rintro ((h | h) | h | h | h)
        · exact Or.inl h
        · exact Or.inr (Or.inl h)
        · exact Or.inr (Or.inr (Or.inl h))
        · exact Or.inr (Or.inl h)
        · exact Or.inr (Or.inr (Or.inr h))
      · rintro (h | h | h | h)
        · exact Or.inl (Or.inl h)
        · exact Or.inl (Or.inr h)
        · exact Or.inr (Or.inl h)
        · exact Or.inr (Or.inr (Or.inr h))

/-- **The answers of a token**, in terms of its scope, its restriction and its roles. -/
theorem holds_iff (t : AccessToken) {p : Permission} (hp : p ≠ .inferxAdmin) :
    t.holds p = true ↔ p.level ≤ scopeLevel t.scope ∧
      (p.publicCall ∨ p.allowed t ∧ (t.isInferxAdmin = true ∨ p.owned t.roles)) := by
  have hread : t.checkScope "read" = true ↔ 2 ≤ scopeLevel t.scope := decide_eq_true_iff
  have hfull : t.checkScope "full" = true ↔ 3 ≤ scopeLevel t.scope := decide_eq_true_iff
  have hinf : t.checkScope "inference" = true ↔ 1 ≤ scopeLevel t.scope := decide_eq_true_iff
  have hite : ∀ a b : Bool, (if (!a) = true then false else b) = true ↔ a = true ∧ b = true := by
    decide
  cases p with
  | tenantUser x =>
    simp only [holds, isTenantUser, hite, hread, hasTenantUserPermission_iff, Permission.level,
      Permission.publicCall, Permission.allowed, false_or]
  | tenantAdmin x =>
    have hor : ∀ a b : Bool, (if a = true then true else b) = true ↔ a = true ∨ b = true := by
      decide
    simp only [holds, isTenantAdmin, hite, hor, hfull, Permission.level, Permission.publicCall,
      Permission.allowed, Permission.owned, false_or, hasTenantAdminRole,
      Std.ExtTreeSet.contains_iff_mem]
  | namespaceUser x n =>
    simp only [holds, isNamespaceUser, hite, hread, hasNamespaceUserPermission_iff,
      Permission.level, Permission.publicCall, Permission.allowed, false_or]
  | namespaceAdmin x n =>
    simp only [holds, isNamespaceAdmin, hite, hfull, hasNamespaceAdminPermission_iff,
      Permission.level, Permission.publicCall, Permission.allowed, false_or]
  | namespaceInferenceUser x n =>
    have hpub : ∀ a : Bool, (if (x == "public") = true then true else a) = true ↔
        x = "public" ∨ a = true := by
      intro a
      by_cases hx : x = "public" <;> simp [hx]
    simp only [holds, isNamespaceInferenceUser, hite, hinf, hpub, hasNamespaceUserPermission_iff,
      Permission.level, Permission.publicCall, Permission.allowed]
    rfl
  | inferxAdmin => exact absurd rfl hp

/-- The answers of a user's own token. -/
theorem new_holds {u : String} {g k : List String} {now : ℕ} (p : Permission) :
    (new u g k now).holds p = true ↔
      (new u g k now).hasInferxAdminIdentity = true ∨ p.owned (new u g k now).roles := by
  have hadmin : (new u g k now).isInferxAdmin = (new u g k now).hasInferxAdminIdentity := rfl
  by_cases hp : p = .inferxAdmin
  · subst hp
    rw [holds, hadmin]
    simp [Permission.owned]
  · have hlevel : p.level ≤ scopeLevel (new u g k now).scope := by
      have : scopeLevel (new u g k now).scope = 3 := rfl
      rw [this]
      cases p <;> simp [Permission.level]
    have hall : p.allowed (new u g k now) := by
      cases p <;> first | rfl | exact absurd rfl hp
    have hpub : p.publicCall → p.owned (new u g k now).roles := by
      cases p <;> simp only [Permission.publicCall, Permission.owned, false_imp_iff]
      exact Or.inl
    rw [holds_iff _ hp, hadmin]
    simp only [hlevel, hall, true_and]
    tauto

section Restricted

variable (base : AccessToken) (scope tenant : String) (ns : Option String) (now : ℕ)

/-- A key speaks for an InferX administrator only with full access to the system tenant. -/
theorem restricted_isInferxAdmin :
    (restricted base scope tenant ns now).isInferxAdmin = true ↔
      3 ≤ scopeLevel scope ∧ tenant = systemTenant ∧ ns = none ∧
        (restricted base scope tenant ns now).hasInferxAdminIdentity = true := by
  have hfull : (restricted base scope tenant ns now).checkScope "full" = true ↔
      3 ≤ scopeLevel scope := decide_eq_true_iff
  unfold isInferxAdmin isSystemScopedInferxAdminApikey
  have h1 : (restricted base scope tenant ns now).sourceIsApikey = true := rfl
  have h2 : (restricted base scope tenant ns now).restrictTenant = some tenant := rfl
  have h3 : (restricted base scope tenant ns now).restrictNamespace = ns := rfl
  rw [h1, h2, h3, ← hfull]
  cases (restricted base scope tenant ns now).checkScope "full" <;>
    cases (restricted base scope tenant ns now).hasInferxAdminIdentity <;> cases ns <;>
    by_cases hs : tenant = systemTenant <;> simp [hs]

theorem restricted_systemScoped :
    (restricted base scope tenant ns now).isSystemScopedInferxAdminApikey =
      (restricted base scope tenant ns now).isInferxAdmin := by
  rw [Bool.eq_iff_iff, restricted_isInferxAdmin]
  have hfull : (restricted base scope tenant ns now).checkScope "full" = true ↔
      3 ≤ scopeLevel scope := decide_eq_true_iff
  rw [← hfull]
  simp [isSystemScopedInferxAdminApikey, restricted, and_assoc]

theorem restricted_allowed {p : Permission} (hp : p ≠ .inferxAdmin) :
    p.allowed (restricted base scope tenant ns now) ↔
      (restricted base scope tenant ns now).isInferxAdmin = true ∨ p.about tenant ns := by
  have hten : ∀ x, (restricted base scope tenant ns now).allowTenant x = true ↔
      (restricted base scope tenant ns now).isInferxAdmin = true ∨ x = tenant := by
    intro x
    rw [allowTenant, restricted_systemScoped]
    by_cases hA : (restricted base scope tenant ns now).isInferxAdmin = true
    · simp [hA]
    · have hrt : (restricted base scope tenant ns now).restrictTenant = some tenant := rfl
      simp only [hA, hrt, Bool.false_eq_true, if_false, beq_iff_eq, false_or]
      exact eq_comm
  have hnsp : ∀ x n, (restricted base scope tenant ns now).allowNamespace x n = true ↔
      (restricted base scope tenant ns now).isInferxAdmin = true ∨
        x = tenant ∧ ∀ r, ns = some r → n = r := by
    intro x n
    unfold allowNamespace
    have hns : (restricted base scope tenant ns now).restrictNamespace = ns := rfl
    rw [hns]
    by_cases hA : (restricted base scope tenant ns now).isInferxAdmin = true
    · -- an administrator's key has no namespace
      obtain ⟨-, -, rfl, -⟩ := (restricted_isInferxAdmin ..).mp hA
      simp [(hten x).mpr (.inl hA), hA]
    · have hx := hten x
      simp only [hA, false_or, Bool.false_eq_true] at hx ⊢
      by_cases hxt : x = tenant
      · subst hxt
        have hyes := hx.mpr rfl
        cases ns with
        | none => simp [hyes]
        | some r => simp [hyes, eq_comm (a := r)]
      · have hno : (restricted base scope tenant ns now).allowTenant x = false := by
          rw [Bool.eq_false_iff, ne_eq, hx]
          exact hxt
        simp [hno, hxt]
  cases p with
  | tenantUser x => exact hten x
  | tenantAdmin x => exact hten x
  | namespaceUser x n => exact hnsp x n
  | namespaceAdmin x n => exact hnsp x n
  | namespaceInferenceUser x n => exact hnsp x n
  | inferxAdmin => exact absurd rfl hp

/-- **The answers of a key**, in terms of the roles it keeps. -/
theorem restricted_holds (p : Permission) :
    (restricted base scope tenant ns now).holds p = true ↔ p.level ≤ scopeLevel scope ∧
      ((restricted base scope tenant ns now).isInferxAdmin = true ∨ p.publicCall ∨
        p.about tenant ns ∧ p.owned (restricted base scope tenant ns now).roles) := by
  by_cases hp : p = .inferxAdmin
  · subst hp
    simp only [holds, Permission.level, Permission.publicCall, Permission.about, false_and, or_false]
    exact ⟨fun h => ⟨((restricted_isInferxAdmin ..).mp h).1, h⟩, fun h => h.2⟩
  · rw [holds_iff _ hp, restricted_allowed _ _ _ _ _ hp]
    have hscope : (restricted base scope tenant ns now).scope = scope := rfl
    rw [hscope]
    tauto

/-- A key keeps the roles inside its restriction. -/
theorem mem_restricted_roles {x : String} :
    x ∈ (restricted base scope tenant ns now).roles ↔
      x ∈ base.roles ∧ roleAllowedByRestriction x tenant ns = true := by
  rw [restricted, Std.ExtTreeSet.mem_filter]
  constructor
  · rintro ⟨h, hx⟩
    rw [Std.ExtTreeSet.get_eq] at hx
    exact ⟨h, hx⟩
  · rintro ⟨h, hx⟩
    refine ⟨h, ?_⟩
    rw [Std.ExtTreeSet.get_eq]
    exact hx

theorem restricted_identity
    (h : (restricted base scope tenant ns now).hasInferxAdminIdentity = true) :
    base.hasInferxAdminIdentity = true := by
  simp only [hasInferxAdminIdentity, Bool.or_eq_true, Std.ExtTreeSet.contains_iff_mem] at h ⊢
  exact h.imp id fun h => ((mem_restricted_roles ..).mp h).1

/-- Nothing outside the restriction, rights in `public` apart. -/
theorem within_of_about {p : Permission} (habout : p.about tenant ns)
    (howned : p.owned (restricted base scope tenant ns now).roles) :
    p.within tenant ns ∨ p.ofPublic := by
  have hadm : ∀ x, tenantAdminRole x ∈ (restricted base scope tenant ns now).roles → ns = none := by
    intro x hx
    have hr := ((mem_restricted_roles ..).mp hx).2
    rw [tenantAdminRole_eq] at hr
    exact roleAllowed_tenantLevel hr
  have husr : ∀ x, tenantUserRole x ∈ (restricted base scope tenant ns now).roles → ns = none := by
    intro x hx
    have hr := ((mem_restricted_roles ..).mp hx).2
    rw [tenantUserRole_eq] at hr
    exact roleAllowed_tenantLevel hr
  cases p with
  | tenantUser x =>
    rcases howned with hx | hx | hx
    · exact .inr hx
    · exact .inl ⟨habout, husr x hx⟩
    · exact .inl ⟨habout, hadm x hx⟩
  | tenantAdmin x => exact .inl ⟨habout, hadm x howned⟩
  | namespaceUser x n => exact .inl habout
  | namespaceAdmin x n => exact .inl habout
  | namespaceInferenceUser x n => exact .inl habout
  | inferxAdmin => exact habout.elim

end Restricted

/-! ## The lists -/

theorem sorted_roles (r : BTreeSet String) : r.toList.Pairwise (· < ·) :=
  Std.ExtTreeSet.ordered_toList.imp fun h => compare_lt_iff_lt.mp h

theorem mem_roleRange {r : BTreeSet String} {p s : String} :
    s ∈ prefixRange p r.toList ↔ p ++ s ∈ r := by
  rw [mem_prefixRange (sorted_roles r), Std.ExtTreeSet.mem_toList]

theorem mem_mapM {α β : Type} {f : α → Option β} {l : List α} {m : List β}
    (h : l.mapM f = some m) {y : β} : y ∈ m ↔ ∃ x ∈ l, f x = some y := by
  induction l generalizing m with
  | nil =>
    obtain rfl : [] = m := by simpa using h
    simp
  | cons a l ih =>
    rw [List.mapM_cons] at h
    obtain ⟨b, hb, h⟩ := Option.bind_eq_some_iff.mp h
    obtain ⟨k, hk, h⟩ := Option.bind_eq_some_iff.mp h
    obtain rfl : b :: k = m := by simpa using h
    simp [ih hk, hb, eq_comm]

theorem mapM_eq_none {α β : Type} {f : α → Option β} {l : List α} :
    l.mapM f = none ↔ ∃ x ∈ l, f x = none := by
  induction l with
  | nil => simp
  | cons a l ih =>
    rw [List.mapM_cons]
    rcases ha : f a with _ | b
    · simp [ha]
    · rcases hl : l.mapM f with _ | k
      · simpa [ha, hl] using ih.mp hl
      · have hno : ¬ ∃ x ∈ l, f x = none := by
          rw [← ih, hl]
          simp
        simpa [ha, hl] using hno

/-- A pair is what stands around the one separator. -/
theorem splitPair_eq {s a b : String} (h : splitPair s = some (a, b)) : s = a ++ ("/" ++ b) := by
  unfold splitPair splitOnChar at h
  have hs : ['/'].intercalate (s.toList.splitOn '/') = s.toList := List.intercalate_splitOn '/'
  rcases hl : s.toList.splitOn '/' with _ | ⟨x, _ | ⟨y, _ | ⟨z, l⟩⟩⟩ <;> rw [hl] at h hs <;>
    simp only [List.map_cons, List.map_nil, Option.some.injEq, Prod.mk.injEq, reduceCtorEq] at h
  obtain ⟨rfl, rfl⟩ := h
  rw [← String.toList_inj, ← hs]
  simp [List.intercalate]

theorem splitPair_append {a b : String} {p : String × String}
    (h : splitPair (a ++ ("/" ++ b)) = some p) : p = (a, b) := by
  unfold splitPair splitOnChar at h
  have hsplit : (a ++ ("/" ++ b)).toList.splitOn '/' =
      a.toList.splitOn '/' ++ b.toList.splitOn '/' := by
    rw [String.toList_append, String.toList_append]
    exact List.splitOn_append_cons_self ..
  rw [hsplit] at h
  have ha : ['/'].intercalate (a.toList.splitOn '/') = a.toList := List.intercalate_splitOn '/'
  have hb : ['/'].intercalate (b.toList.splitOn '/') = b.toList := List.intercalate_splitOn '/'
  rcases hx : a.toList.splitOn '/' with _ | ⟨x, _ | ⟨x', l⟩⟩
  · exact absurd hx (List.splitOn_ne_nil _ _)
  · rcases hy : b.toList.splitOn '/' with _ | ⟨y, _ | ⟨y', m⟩⟩
    · exact absurd hy (List.splitOn_ne_nil _ _)
    · rw [hx] at ha h
      rw [hy] at hb h
      simp only [List.cons_append, List.nil_append, List.map_cons, List.map_nil,
        Option.some.injEq] at h
      simp only [List.intercalate, List.intersperse_singleton, List.flatten_cons, List.flatten_nil,
        List.append_nil] at ha hb
      rw [← h, ha, hb, String.ofList_toList, String.ofList_toList]
    · simp [hx, hy] at h
  · rcases hy : b.toList.splitOn '/' with _ | ⟨y, m⟩
    · exact absurd hy (List.splitOn_ne_nil _ _)
    · rcases l with _ | ⟨z, l⟩ <;> simp [hx, hy] at h

section Lists

variable (t : AccessToken)

theorem mem_adminTenants {x : String} :
    x ∈ t.adminTenants ↔ tenantAdminRole x ∈ t.roles ∧ t.allowTenant x = true := by
  rw [adminTenants, List.mem_filter, mem_roleRange]
  rfl

theorem mem_userTenants {x : String} :
    x ∈ t.userTenants ↔ t.allowTenant x = true ∧
      (x = "public" ∨ tenantUserRole x ∈ t.roles ∨ tenantAdminRole x ∈ t.roles) := by
  have hmem : x ∈ ((Std.ExtTreeSet.ofList ((prefixRange AccessToken.tenantUser t.roles.toList).filter
      t.allowTenant ++ t.adminTenants) : BTreeSet String)).toList ↔
      (tenantUserRole x ∈ t.roles ∨ tenantAdminRole x ∈ t.roles) ∧ t.allowTenant x = true := by
    rw [Std.ExtTreeSet.mem_toList, Std.ExtTreeSet.mem_ofList, List.contains_iff_mem,
      List.mem_append, List.mem_filter, mem_roleRange, mem_adminTenants, ← or_and_right]
    rfl
  rw [userTenants, List.mem_append, hmem]
  by_cases hp : t.allowTenant "public" = true
  · simp only [hp, if_true, List.mem_singleton]
    constructor
    · rintro (⟨hr, ha⟩ | rfl)
      · exact ⟨ha, .inr hr⟩
      · exact ⟨hp, .inl rfl⟩
    · rintro ⟨ha, rfl | hr⟩
      · exact .inr rfl
      · exact .inl ⟨hr, ha⟩
  · simp only [hp, Bool.false_eq_true, if_false, List.not_mem_nil, or_false]
    constructor
    · rintro ⟨hr, ha⟩
      exact ⟨ha, .inr hr⟩
    · rintro ⟨ha, rfl | hr⟩
      · exact absurd ha hp
      · exact ⟨hr, ha⟩

/-- The pairs behind a role prefix, when every role with it has two parts. -/
theorem mem_rolePairs {p : String} {m : List (String × String)}
    (h : (prefixRange p t.roles.toList).mapM splitPair = some m) {a b : String} :
    (a, b) ∈ m ↔ p ++ (a ++ ("/" ++ b)) ∈ t.roles := by
  rw [mem_mapM h]
  constructor
  · rintro ⟨s, hs, hsplit⟩
    rw [← splitPair_eq hsplit]
    exact mem_roleRange.mp hs
  · intro hmem
    have hs := mem_roleRange.mpr hmem
    rcases hsplit : splitPair (a ++ ("/" ++ b)) with _ | q
    · have hnone := mapM_eq_none.mpr ⟨_, hs, hsplit⟩
      rw [h] at hnone
      cases hnone
    · exact ⟨_, hs, splitPair_append hsplit ▸ hsplit⟩

/-- A role with the prefix that is not a pair. -/
def Odd (p : String) : Prop := ∃ s, p ++ s ∈ t.roles ∧ splitPair s = none

theorem rolePairs_eq_none {p : String} :
    (prefixRange p t.roles.toList).mapM splitPair = none ↔ Odd t p := by
  rw [mapM_eq_none]
  simp only [mem_roleRange, Odd]

theorem adminNamespaces_eq_none : t.adminNamespaces = none ↔ Odd t AccessToken.namespaceAdmin := by
  rw [adminNamespaces, ← rolePairs_eq_none]
  rcases (prefixRange AccessToken.namespaceAdmin t.roles.toList).mapM splitPair with _ | m <;> simp

theorem mem_adminNamespaces {l : List (String × String)} (h : t.adminNamespaces = some l)
    {x : String × String} :
    x ∈ l ↔ namespaceAdminRole x.1 x.2 ∈ t.roles ∧ t.allowNamespace x.1 x.2 = true := by
  unfold adminNamespaces at h
  obtain ⟨m, hm, h⟩ := Option.bind_eq_some_iff.mp h
  obtain rfl := Option.some.inj h
  rw [List.mem_filter, ← Prod.mk.eta (p := x), mem_rolePairs t hm]
  rfl

theorem userNamespaces_eq_none : t.userNamespaces = none ↔
    Odd t AccessToken.namespaceUser ∨ Odd t AccessToken.namespaceAdmin := by
  rw [userNamespaces, ← rolePairs_eq_none, ← adminNamespaces_eq_none]
  rcases (prefixRange AccessToken.namespaceUser t.roles.toList).mapM splitPair with _ | m <;>
    rcases t.adminNamespaces with _ | k <;> simp

theorem mem_userNamespaces {l : List (String × String)} (h : t.userNamespaces = some l)
    {x : String × String} :
    x ∈ l ↔ t.allowNamespace x.1 x.2 = true ∧
      (namespaceUserRole x.1 x.2 ∈ t.roles ∨ namespaceAdminRole x.1 x.2 ∈ t.roles) := by
  unfold userNamespaces at h
  obtain ⟨m, hm, h⟩ := Option.bind_eq_some_iff.mp h
  obtain ⟨k, hk, h⟩ := Option.bind_eq_some_iff.mp h
  obtain rfl := Option.some.inj h
  have hu : x ∈ m ↔ namespaceUserRole x.1 x.2 ∈ t.roles := mem_rolePairs t hm
  rw [List.mem_mergeSort, List.mem_dedup, List.mem_append, List.mem_filter, hu,
    mem_adminNamespaces t hk]
  tauto

/-- What the lists are for: they name what the predicates allow. -/
structure ListsAgree : Prop where
  adminTenants : ∀ x ∈ t.adminTenants, t.isTenantAdmin x = true
  adminNamespaces : ∀ l, t.adminNamespaces = some l →
    ∀ x ∈ l, t.isNamespaceAdmin x.1 x.2 = true
  userTenants : ∀ x ∈ t.userTenants, t.isTenantUser x = true
  userNamespaces : ∀ l, t.userNamespaces = some l → ∀ x ∈ l, t.isNamespaceUser x.1 x.2 = true

/-- A listed tenant or namespace has the permission as soon as the level is high enough. -/
theorem listed_iff {p : Permission} (hp : p ≠ .inferxAdmin)
    (hall : p.allowed t) (howned : p.owned t.roles) :
    t.holds p = true ↔ p.level ≤ scopeLevel t.scope := by
  rw [holds_iff t hp]
  exact ⟨fun h => h.1, fun h => ⟨h, .inr ⟨hall, .inr howned⟩⟩⟩

/-- **The lists agree with the predicates exactly when the level reaches what they list.** -/
theorem listsAgree_iff : ListsAgree t ↔
    (3 ≤ scopeLevel t.scope ∨ t.adminTenants = [] ∧ ∀ l, t.adminNamespaces = some l → l = []) ∧
    (2 ≤ scopeLevel t.scope ∨ t.userTenants = [] ∧ ∀ l, t.userNamespaces = some l → l = []) := by
  have hat : ∀ x ∈ t.adminTenants, (t.isTenantAdmin x = true ↔ 3 ≤ scopeLevel t.scope) := by
    intro x hx
    obtain ⟨hr, ha⟩ := (mem_adminTenants t).mp hx
    exact listed_iff t (p := .tenantAdmin x) (by simp) ha hr
  have han : ∀ l, t.adminNamespaces = some l → ∀ x ∈ l,
      (t.isNamespaceAdmin x.1 x.2 = true ↔ 3 ≤ scopeLevel t.scope) := by
    intro l hl x hx
    obtain ⟨hr, ha⟩ := (mem_adminNamespaces t hl).mp hx
    exact listed_iff t (p := .namespaceAdmin x.1 x.2) (by simp) ha
      (.inr hr)
  have hut : ∀ x ∈ t.userTenants, (t.isTenantUser x = true ↔ 2 ≤ scopeLevel t.scope) := by
    intro x hx
    obtain ⟨ha, hr⟩ := (mem_userTenants t).mp hx
    exact listed_iff t (p := .tenantUser x) (by simp) ha hr
  have hun : ∀ l, t.userNamespaces = some l → ∀ x ∈ l,
      (t.isNamespaceUser x.1 x.2 = true ↔ 2 ≤ scopeLevel t.scope) := by
    intro l hl x hx
    obtain ⟨ha, hr⟩ := (mem_userNamespaces t hl).mp hx
    exact listed_iff t (p := .namespaceUser x.1 x.2) (by simp) ha
      (.inr (.inr (.inr hr)))
  constructor
  · intro h
    constructor
    · by_cases hlevel : 3 ≤ scopeLevel t.scope
      · exact .inl hlevel
      · refine .inr ⟨List.eq_nil_iff_forall_not_mem.mpr fun x hx => ?_, fun l hl =>
          List.eq_nil_iff_forall_not_mem.mpr fun x hx => ?_⟩
        · exact hlevel ((hat x hx).mp (h.adminTenants x hx))
        · exact hlevel ((han l hl x hx).mp (h.adminNamespaces l hl x hx))
    · by_cases hlevel : 2 ≤ scopeLevel t.scope
      · exact .inl hlevel
      · refine .inr ⟨List.eq_nil_iff_forall_not_mem.mpr fun x hx => ?_, fun l hl =>
          List.eq_nil_iff_forall_not_mem.mpr fun x hx => ?_⟩
        · exact hlevel ((hut x hx).mp (h.userTenants x hx))
        · exact hlevel ((hun l hl x hx).mp (h.userNamespaces l hl x hx))
  · rintro ⟨hadmin, huser⟩
    constructor
    · intro x hx
      rcases hadmin with hlevel | ⟨hnil, -⟩
      · exact (hat x hx).mpr hlevel
      · simp [hnil] at hx
    · intro l hl x hx
      rcases hadmin with hlevel | ⟨-, hnil⟩
      · exact (han l hl x hx).mpr hlevel
      · simp [hnil l hl] at hx
    · intro x hx
      rcases huser with hlevel | ⟨hnil, -⟩
      · exact (hut x hx).mpr hlevel
      · simp [hnil] at hx
    · intro l hl x hx
      rcases huser with hlevel | ⟨-, hnil⟩
      · exact (hun l hl x hx).mpr hlevel
      · simp [hnil l hl] at hx

end Lists

/-! ## A key against its owner -/

namespace Apikey

variable (base : AccessToken) (key : Apikey)

/-- The tenant of a key, as it is compared. -/
def tenant : String := trimWhite (key.restrictTenant.getD "")

/-- The namespace of a key, as it is compared. -/
def nameSpace : Option String := key.restrictNamespace.map trimWhite

/-- A role of the owner that stays with the key. -/
def Keeps (role : String) : Prop :=
  role ∈ base.roles ∧ roleAllowedByRestriction role key.tenant key.nameSpace = true

/-- No administrator role stays with the key; one that is not of the form
`tenant/namespace` stops the listing instead. -/
def AdminFree : Prop :=
  ¬ key.Keeps base (tenantAdminRole key.tenant) ∧
    ((∃ s, key.Keeps base (AccessToken.namespaceAdmin ++ s) ∧ splitPair s = none) ∨
      ∀ n, (∀ r, key.nameSpace = some r → n = r) →
        ¬ key.Keeps base (namespaceAdminRole key.tenant n))

/-- No role at all stays with the key, and it is not for `public`. -/
def RoleFree : Prop :=
  key.tenant ≠ "public" ∧ ¬ key.Keeps base (tenantUserRole key.tenant) ∧
    ((∃ s, (key.Keeps base (AccessToken.namespaceUser ++ s) ∨
        key.Keeps base (AccessToken.namespaceAdmin ++ s)) ∧ splitPair s = none) ∨
      ∀ n, (∀ r, key.nameSpace = some r → n = r) →
        ¬ key.Keeps base (namespaceUserRole key.tenant n))

/-- The keys for which the lists of the token are right: those with full
access, and those that leave nothing to be listed above their level. -/
def ListsFit : Prop :=
  key.accessLevel = "full" ∨ key.AdminFree base ∧ (key.accessLevel = "read" ∨ key.RoleFree base)

/-- The full key of an InferX administrator for the system tenant. -/
def IsSystemKey : Prop :=
  key.accessLevel = "full" ∧ key.tenant = systemTenant ∧ key.nameSpace = none ∧
    base.hasInferxAdminIdentity = true

/-- Nothing that the owner may not, that the level does not allow, or that is
outside the restriction. -/
def Confines (t : AccessToken) : Prop :=
  ∀ p : Permission, t.holds p = true → base.holds p = true ∧
    p.level ≤ scopeLevel key.accessLevel ∧
    (p.within key.tenant key.nameSpace ∨ p.ofPublic ∨ key.IsSystemKey base)

end Apikey

section Confined

variable {base t : AccessToken} {key : Apikey} {now : ℕ}

theorem validateScope_ok {scope : String} (h : validateScope scope = .ok ()) :
    scope = "full" ∨ scope = "inference" ∨ scope = "read" := by
  unfold validateScope at h
  split at h
  next hs => exact hs
  next => cases h

/-- Of the three levels only full access is above reading. -/
theorem full_iff_scopeLevel {scope : String}
    (hvalid : scope = "full" ∨ scope = "inference" ∨ scope = "read") :
    3 ≤ scopeLevel scope ↔ scope = "full" := by
  rcases hvalid with rfl | rfl | rfl
  · decide
  · decide
  · decide

theorem read_iff_scopeLevel {scope : String}
    (hvalid : scope = "full" ∨ scope = "inference" ∨ scope = "read") :
    2 ≤ scopeLevel scope ↔ scope = "full" ∨ scope = "read" := by
  rcases hvalid with rfl | rfl | rfl
  · decide
  · decide
  · decide

theorem bind_eq_ok {α β : Type} {x : Except AuthError α} {f : α → Except AuthError β} {b : β}
    (h : (x >>= f) = .ok b) : ∃ a, x = .ok a ∧ f a = .ok b := by
  cases x with
  | error e => cases h
  | ok a => exact ⟨a, rfl, h⟩

theorem normalizeRequiredTenant_ok {o : Option String} {x : String}
    (h : normalizeRequiredTenant o = .ok x) : x = trimWhite (o.getD "") := by
  cases o with
  | none => cases h
  | some r =>
    by_cases he : (trimWhite r).isEmpty = true
    · simp [normalizeRequiredTenant, he] at h
    · simpa [normalizeRequiredTenant, he, eq_comm] using h

theorem normalizeOptionalNamespace_ok {o x : Option String}
    (h : normalizeOptionalNamespace o = .ok x) : x = o.map trimWhite := by
  cases o with
  | none => exact (Except.ok.inj h).symm
  | some r =>
    by_cases he : (trimWhite r).isEmpty = true
    · simp [normalizeOptionalNamespace, he] at h
    · simpa [normalizeOptionalNamespace, he, eq_comm] using h

/-- The token of a key, when there is one. -/
theorem applyApikeyRestrictions_ok (h : applyApikeyRestrictions base key now = .ok t) :
    (key.accessLevel = "full" ∨ key.accessLevel = "inference" ∨ key.accessLevel = "read") ∧
      t = restricted base key.accessLevel key.tenant key.nameSpace now := by
  unfold applyApikeyRestrictions at h
  obtain ⟨_, hscope, h⟩ := bind_eq_ok h
  obtain ⟨x, hx, h⟩ := bind_eq_ok h
  obtain ⟨n, hn, h⟩ := bind_eq_ok h
  obtain rfl := Except.ok.inj h
  rw [normalizeRequiredTenant_ok hx, normalizeOptionalNamespace_ok hn]
  exact ⟨validateScope_ok hscope, rfl⟩

/-- **No key exceeds its owner, its level or its restriction**, as far as the predicates go. -/
theorem confines_of_ok {u : String} {g k : List String} {made : ℕ}
    (h : applyApikeyRestrictions (new u g k made) key now = .ok t) :
    key.Confines (new u g k made) t := by
  obtain ⟨hvalid, rfl⟩ := applyApikeyRestrictions_ok h
  intro p hp
  obtain ⟨hlevel, hp⟩ := (restricted_holds ..).mp hp
  rw [new_holds]
  rcases hp with hadmin | hcall | ⟨habout, howned⟩
  · obtain ⟨hl, ht, hn, hid⟩ := (restricted_isInferxAdmin ..).mp hadmin
    have hbase := restricted_identity _ _ _ _ _ hid
    have hfull : key.accessLevel = "full" := (full_iff_scopeLevel hvalid).mp hl
    exact ⟨.inl hbase, hlevel, .inr (.inr ⟨hfull, ht, hn, hbase⟩)⟩
  · cases p with
    | namespaceInferenceUser x n => exact ⟨.inr (.inl hcall), hlevel, .inr (.inl hcall)⟩
    | _ => exact hcall.elim
  · refine ⟨.inr (Permission.owned_mono (fun x hx => ((mem_restricted_roles ..).mp hx).1) howned),
      hlevel, ?_⟩
    exact (within_of_about _ _ _ _ _ habout howned).imp id .inl

/-- What the restriction of a key that is not full allows. -/
theorem restricted_allows (base : AccessToken) {scope : String} (tenant : String)
    (ns : Option String) (now : ℕ) (hlow : ¬ 3 ≤ scopeLevel scope) :
    (∀ x, (restricted base scope tenant ns now).allowTenant x = true ↔ x = tenant) ∧
    ∀ x n, (restricted base scope tenant ns now).allowNamespace x n = true ↔
      x = tenant ∧ ∀ r, ns = some r → n = r := by
  have hA : ¬ (restricted base scope tenant ns now).isInferxAdmin = true := fun hA =>
    hlow ((restricted_isInferxAdmin ..).mp hA).1
  constructor
  · intro x
    have h := restricted_allowed base scope tenant ns now (p := .tenantUser x) (by simp)
    simpa only [Permission.allowed, Permission.about, hA, Bool.false_eq_true, false_or] using h
  · intro x n
    have h := restricted_allowed base scope tenant ns now (p := .namespaceUser x n) (by simp)
    simpa only [Permission.allowed, Permission.about, hA, Bool.false_eq_true, false_or] using h

/-- A list of pairs that is cut down to one tenant is empty, or not there at all. -/
theorem pairs_nil_iff {o : Option (List (String × String))} (tenant : String)
    (ok : String → Prop) {R : String → String → Prop}
    (hmem : ∀ l, o = some l → ∀ x, x ∈ l ↔ (x.1 = tenant ∧ ok x.2) ∧ R x.1 x.2) :
    (∀ l, o = some l → l = []) ↔ o = none ∨ ∀ n, ok n → ¬ R tenant n := by
  constructor
  · intro h
    rcases ho : o with _ | l
    · exact .inl rfl
    · refine .inr fun n hn hR => ?_
      have hin := (hmem l ho (tenant, n)).mpr ⟨⟨rfl, hn⟩, hR⟩
      rw [h l ho] at hin
      cases hin
  · rintro (h | h) l hl
    · rw [h] at hl
      cases hl
    · refine List.eq_nil_iff_forall_not_mem.mpr fun x hx => ?_
      obtain ⟨⟨hx1, hx2⟩, hR⟩ := (hmem l hl x).mp hx
      exact h x.2 hx2 (hx1 ▸ hR)

/-- The key of a level below full lists nothing to administer. -/
theorem restricted_admin_nil (now : ℕ) (hlow : ¬ 3 ≤ scopeLevel key.accessLevel) :
    ((restricted base key.accessLevel key.tenant key.nameSpace now).adminTenants = [] ∧
      ∀ l, (restricted base key.accessLevel key.tenant key.nameSpace now).adminNamespaces = some l →
        l = []) ↔ key.AdminFree base := by
  obtain ⟨hten, hnsp⟩ := restricted_allows base key.tenant key.nameSpace now hlow
  have hkeep : ∀ x, x ∈ (restricted base key.accessLevel key.tenant key.nameSpace now).roles ↔
      key.Keeps base x := fun x => mem_restricted_roles ..
  generalize restricted base key.accessLevel key.tenant key.nameSpace now = t at hten hnsp hkeep ⊢
  have hat : t.adminTenants = [] ↔ ¬ key.Keeps base (tenantAdminRole key.tenant) := by
    simp only [List.eq_nil_iff_forall_not_mem, mem_adminTenants, hten, hkeep]
    exact ⟨fun h hk => h _ ⟨hk, rfl⟩, fun h x hx => h (hx.2 ▸ hx.1)⟩
  have han := pairs_nil_iff (o := t.adminNamespaces) (R := fun a b =>
    key.Keeps base (namespaceAdminRole a b)) key.tenant
      (fun n => ∀ r, key.nameSpace = some r → n = r) fun l hl x => by
        rw [mem_adminNamespaces t hl, hnsp, hkeep, and_comm]
  rw [adminNamespaces_eq_none] at han
  simp only [Odd, hkeep] at han
  rw [hat, han, Apikey.AdminFree]

/-- Where it lists nothing to administer, it lists nothing at all when no user
role stays with it either. -/
theorem restricted_user_nil (now : ℕ) (hlow : ¬ 3 ≤ scopeLevel key.accessLevel)
    (hadmin : key.AdminFree base) :
    ((restricted base key.accessLevel key.tenant key.nameSpace now).userTenants = [] ∧
      ∀ l, (restricted base key.accessLevel key.tenant key.nameSpace now).userNamespaces = some l →
        l = []) ↔ key.RoleFree base := by
  obtain ⟨hten, hnsp⟩ := restricted_allows base key.tenant key.nameSpace now hlow
  have hkeep : ∀ x, x ∈ (restricted base key.accessLevel key.tenant key.nameSpace now).roles ↔
      key.Keeps base x := fun x => mem_restricted_roles ..
  generalize restricted base key.accessLevel key.tenant key.nameSpace now = t at hten hnsp hkeep ⊢
  have hut : t.userTenants = [] ↔ key.tenant ≠ "public" ∧
      ¬ key.Keeps base (tenantUserRole key.tenant) ∧
      ¬ key.Keeps base (tenantAdminRole key.tenant) := by
    simp only [List.eq_nil_iff_forall_not_mem, mem_userTenants, hten, hkeep, ← not_or]
    exact ⟨fun h hk => h _ ⟨rfl, hk⟩, fun h x hx => h (hx.1 ▸ hx.2)⟩
  have hun := pairs_nil_iff (o := t.userNamespaces) (R := fun a b =>
    key.Keeps base (namespaceUserRole a b) ∨ key.Keeps base (namespaceAdminRole a b)) key.tenant
      (fun n => ∀ r, key.nameSpace = some r → n = r) fun l hl x => by
        rw [mem_userNamespaces t hl, hnsp, hkeep, hkeep]
  rw [userNamespaces_eq_none] at hun
  simp only [Odd, hkeep, not_or] at hun
  rw [hut, hun]
  constructor
  · rintro ⟨⟨hpub, hu, -⟩, hus⟩
    refine ⟨hpub, hu, ?_⟩
    rcases hus with (⟨s, hs, hodd⟩ | ⟨s, hs, hodd⟩) | hnone
    · exact .inl ⟨s, .inl hs, hodd⟩
    · exact .inl ⟨s, .inr hs, hodd⟩
    · exact .inr fun n hn => (hnone n hn).1
  · rintro ⟨hpub, hu, hus⟩
    refine ⟨⟨hpub, hu, hadmin.1⟩, ?_⟩
    rcases hus with ⟨s, hs | hs, hodd⟩ | hnone
    · exact .inl (.inl ⟨s, hs, hodd⟩)
    · exact .inl (.inr ⟨s, hs, hodd⟩)
    · rcases hadmin.2 with ⟨s, hs, hodd⟩ | hnoadmin
      · exact .inl (.inr ⟨s, hs, hodd⟩)
      · exact .inr fun n hn => ⟨hnone n hn, hnoadmin n hn⟩

/-- A key agrees with its lists exactly when it fits them. -/
theorem restricted_listsAgree (now : ℕ) (hvalid : key.accessLevel = "full" ∨
    key.accessLevel = "inference" ∨ key.accessLevel = "read") :
    ListsAgree (restricted base key.accessLevel key.tenant key.nameSpace now) ↔
      key.ListsFit base := by
  rw [listsAgree_iff]
  have hscope : (restricted base key.accessLevel key.tenant key.nameSpace now).scope =
      key.accessLevel := rfl
  rw [hscope, full_iff_scopeLevel hvalid, read_iff_scopeLevel hvalid]
  by_cases hfull : key.accessLevel = "full"
  · exact ⟨fun _ => .inl hfull, fun _ => ⟨.inl hfull, .inl (.inl hfull)⟩⟩
  · have hlow : ¬ 3 ≤ scopeLevel key.accessLevel := fun h =>
      hfull ((full_iff_scopeLevel hvalid).mp h)
    rw [restricted_admin_nil now hlow]
    simp only [hfull, false_or, Apikey.ListsFit]
    exact and_congr_right fun hadmin => or_congr_right (restricted_user_nil now hlow hadmin)

/-- **A key against its owner and its restriction.** The predicates never say
more than the owner, the level and the restriction allow; the lists agree with
them exactly for the keys that fit. -/
theorem apikey_confined_iff {u : String} {g k : List String} {made : ℕ}
    (h : applyApikeyRestrictions (new u g k made) key now = .ok t) :
    (key.Confines (new u g k made) t ∧ ListsAgree t) ↔ key.ListsFit (new u g k made) := by
  have hconf := confines_of_ok h
  obtain ⟨hvalid, rfl⟩ := applyApikeyRestrictions_ok h
  rw [restricted_listsAgree now hvalid]
  exact ⟨fun h => h.2, fun h => ⟨hconf, h⟩⟩

end Confined

/-- A key of the administrator of `acme` that may only read. -/
def readKey : Apikey :=
  { apikey := "ix_1", username := "ann", keyname := "ci", accessLevel := "read",
    restrictTenant := some "acme" }

theorem apikey_confined_full :
    ((({ readKey with accessLevel := "full" } : Apikey).Confines
        (new "ann" ["/tenant/admin/acme"] [] 0)
        (restricted (new "ann" ["/tenant/admin/acme"] [] 0) "full" "acme" none 0)) ∧
      ListsAgree (restricted (new "ann" ["/tenant/admin/acme"] [] 0) "full" "acme" none 0)) :=
  have h : applyApikeyRestrictions (new "ann" ["/tenant/admin/acme"] [] 0)
      { readKey with accessLevel := "full" } 0 = .ok (restricted
        (new "ann" ["/tenant/admin/acme"] [] 0) "full" "acme" none 0) := by rfl
  (apikey_confined_iff h).mpr (.inl rfl)

theorem readKey_lists_admin :
    ¬ ∀ (u : String) (g k : List String) (made now : ℕ) (key : Apikey) (t : AccessToken),
      applyApikeyRestrictions (new u g k made) key now = .ok t →
      key.Confines (new u g k made) t ∧ ListsAgree t := by
  intro h
  have hlists := (h "ann" ["/tenant/admin/acme"] [] 0 0 readKey
    (restricted (new "ann" ["/tenant/admin/acme"] [] 0) "read" "acme" none 0) (by rfl)).2
  have hin := hlists.adminTenants "acme" (by decide +kernel)
  exact absurd hin (by decide +kernel)

end Inferx.Gateway
