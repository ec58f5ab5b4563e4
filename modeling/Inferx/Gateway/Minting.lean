import Inferx.Gateway.Apikeys

/-!
# Keys made with keys

`createApikey` compares the tenant and the namespace of a new key with what the
caller may use, and nothing else; the token of the new key is then made from the
roles of the owner and not from the caller's. `mint_iff` says for which requests
the new key gives nothing new: the level has to be one the caller has (or the
owner administers nothing there), the validity has to end with the caller's, and
a caller confined to a namespace of `public` may not leave it.
-/

namespace Inferx.Gateway

open AccessToken Strs

/-- The token of a caller: the user's own, or the one of a key of the user. -/
def callerToken (base : AccessToken) (source : Option Apikey) (now : ℕ) :
    Except AuthError AccessToken :=
  match source with
  | none => .ok base
  | some key => applyApikeyRestrictions base key now

namespace ApikeyCreateRequest

variable (req : ApikeyCreateRequest)

/-- The level of the key that is asked for. -/
def level : String := req.accessLevel.getD "inference"

/-- The tenant of the key that is asked for. -/
def tenant : String := trimWhite (req.restrictTenant.getD "")

/-- The namespace of the key that is asked for. -/
def nameSpace : Option String := req.restrictNamespace.map trimWhite

/-- A role of the owner that stays with the key that is asked for. -/
def Keeps (base : AccessToken) (role : String) : Prop :=
  role ∈ base.roles ∧ roleAllowedByRestriction role req.tenant req.nameSpace = true

/-- The owner administers something within the restriction that is asked for. -/
def Administers (base : AccessToken) : Prop :=
  (base.username = inferxAdmin ∧ req.tenant = systemTenant ∧ req.nameSpace = none) ∨
    req.Keeps base (tenantAdminRole req.tenant) ∨
    ∃ n, (∀ r, req.nameSpace = some r → n = r) ∧
      req.Keeps base (namespaceAdminRole req.tenant n)

/-- The requests with a key that give nothing new. -/
structure NoGain (base : AccessToken) (key : Apikey) (now : ℕ) : Prop where
  /-- the new key ends with the old one -/
  expiry : ∀ e, key.expiresAt = some e → ∃ d, req.expiresInDays = some d ∧ now + d.toNat * day ≤ e
  /-- full access only with full access, or where there is nothing to administer -/
  level : req.level = "full" → key.accessLevel = "full" ∨ ¬ req.Administers base
  /-- a namespace of `public` is not left -/
  nameSpace : key.tenant = "public" → req.level ≠ "inference" →
    key.nameSpace = none ∨ req.nameSpace = key.nameSpace

end ApikeyCreateRequest

/-! ## What is accepted -/

section Accepted

variable {base t : AccessToken} {req : ApikeyCreateRequest} {raw : String} {now last : ℕ}
  {minted : Apikey}

/-- The restriction that a caller who is no InferX administrator can ask for. -/
theorem requestedKey_ok {key : String × String × Option String} (hadmin : t.isInferxAdmin = false)
    (h : requestedKey t req = .ok key) :
    key = (req.level, req.tenant, req.nameSpace) ∧
      (t.isTenantUser req.tenant = true ∨
        ∃ n, req.nameSpace = some n ∧ t.isNamespaceUser req.tenant n = true) := by
  unfold requestedKey at h
  obtain ⟨_, hscope, h⟩ := bind_eq_ok h
  obtain ⟨x, hx, h⟩ := bind_eq_ok h
  obtain ⟨n, hn, h⟩ := bind_eq_ok h
  obtain rfl : x = req.tenant := normalizeRequiredTenant_ok hx
  obtain rfl : n = req.nameSpace := normalizeOptionalNamespace_ok hn
  rw [hadmin] at h
  simp only [Bool.not_false, if_true] at h
  rcases hns : req.nameSpace with _ | m
  · rw [hns] at h
    by_cases hu : t.isTenantUser req.tenant = true
    · simp only [hu, Bool.not_true] at h
      exact ⟨(Except.ok.inj h).symm, .inl hu⟩
    · simp [hu] at h
      cases h
  · rw [hns] at h
    by_cases hu : t.isTenantUser req.tenant = true
    · simp only [hu, Bool.not_true, Bool.false_and] at h
      exact ⟨(Except.ok.inj h).symm, .inl hu⟩
    · by_cases hm : t.isNamespaceUser req.tenant m = true
      · simp only [hm, Bool.not_true, Bool.and_false] at h
        exact ⟨(Except.ok.inj h).symm, .inr ⟨m, rfl, hm⟩⟩
      · simp [hu, hm] at h
        cases h

theorem expiry_ok {o : Option UInt32} {e : Option ℕ} (h : expiry now last o = .ok e) :
    e = o.map fun d => now + d.toNat * day := by
  cases o with
  | none => exact (Except.ok.inj h).symm
  | some d =>
    by_cases hle : now + d.toNat * day ≤ last
    · simpa [expiry, hle, eq_comm] using h
    · simp [expiry, hle] at h

theorem createApikey_ok (hadmin : t.isInferxAdmin = false)
    (h : createApikey t req raw now last = .ok minted) :
    minted.accessLevel = req.level ∧ minted.tenant = req.tenant ∧
      minted.nameSpace = req.nameSpace ∧
      minted.expiresAt = req.expiresInDays.map (fun d => now + d.toNat * day) ∧
      (t.isTenantUser req.tenant = true ∨
        ∃ n, req.nameSpace = some n ∧ t.isNamespaceUser req.tenant n = true) := by
  unfold createApikey at h
  obtain ⟨user, -, h⟩ := bind_eq_ok h
  by_cases hname : (trimWhite req.keyname).isEmpty = true
  · simp [hname] at h
    cases h
  · simp only [hname, hadmin, Bool.false_and, Bool.false_eq_true, if_false] at h
    obtain ⟨key, hkey, h⟩ := bind_eq_ok h
    obtain ⟨e, he, h⟩ := bind_eq_ok h
    obtain ⟨rfl, hperm⟩ := requestedKey_ok hadmin hkey
    obtain rfl := Except.ok.inj h
    refine ⟨rfl, trimWhere_trimWhere _ _, ?_, expiry_ok he, hperm⟩
    have htrim : ∀ o : Option String, (o.map trimWhite).map trimWhite = o.map trimWhite := by
      intro o
      cases o with
      | none => rfl
      | some x => exact congrArg some (trimWhere_trimWhere _ _)
    exact htrim _

end Accepted

/-! ## The new key against the caller -/

section Mint

variable {base t n : AccessToken} {key minted : Apikey} {req : ApikeyCreateRequest} {raw : String}
  {now last at₀ at₁ : ℕ}

theorem partsAllowed_none {tenant : String} {ns : Option String} {l : List String}
    (h : partsAllowed tenant ns l = true) : partsAllowed tenant none l = true := by
  unfold partsAllowed at h ⊢
  split at h <;> simp_all

/-- A wider restriction keeps more roles. -/
theorem restricted_roles_mono {scope scope' tenant : String} {ns ns' : Option String}
    (hns : ns' = none ∨ ns = ns') {x : String}
    (h : x ∈ (restricted base scope tenant ns at₀).roles) :
    x ∈ (restricted base scope' tenant ns' at₁).roles := by
  rw [mem_restricted_roles] at h ⊢
  refine ⟨h.1, ?_⟩
  rcases hns with rfl | rfl
  · exact partsAllowed_none h.2
  · exact h.2

theorem Permission.about_mono {tenant : String} {ns ns' : Option String} (hns : ns' = none ∨ ns = ns')
    {p : Permission} (h : p.about tenant ns) : p.about tenant ns' := by
  rcases hns with rfl | rfl
  · cases p with
    | tenantUser x => exact h
    | tenantAdmin x => exact h
    | namespaceUser x m => exact ⟨h.1, fun _ hr => nomatch hr⟩
    | namespaceAdmin x m => exact ⟨h.1, fun _ hr => nomatch hr⟩
    | namespaceInferenceUser x m => exact ⟨h.1, fun _ hr => nomatch hr⟩
    | inferxAdmin => exact h
  · exact h

/-- What a key may be used for that asks for another: it reads, in the tenant of
both, and stays in its namespace unless the tenant is `public`. -/
theorem accepted_restricts (hadmin : (restricted base key.accessLevel key.tenant key.nameSpace
      at₀).isInferxAdmin = false)
    (h : (restricted base key.accessLevel key.tenant key.nameSpace at₀).isTenantUser req.tenant =
        true ∨ ∃ m, req.nameSpace = some m ∧ (restricted base key.accessLevel key.tenant
          key.nameSpace at₀).isNamespaceUser req.tenant m = true) :
    2 ≤ scopeLevel key.accessLevel ∧ req.tenant = key.tenant ∧
      (key.nameSpace = none ∨ req.nameSpace = key.nameSpace ∨ key.tenant = "public") := by
  rcases h with h | ⟨m, hm, h⟩
  · obtain ⟨hlevel, h⟩ := (restricted_holds (p := .tenantUser req.tenant) ..).mp h
    rcases h with h | h | ⟨habout, howned⟩
    · rw [hadmin] at h
      cases h
    · exact h.elim
    · refine ⟨hlevel, habout, ?_⟩
      rcases within_of_about _ _ _ _ _ habout howned with hw | hw
      · exact .inl hw.2
      · exact .inr (.inr (habout.symm.trans hw))
  · obtain ⟨hlevel, h⟩ := (restricted_holds (p := .namespaceUser req.tenant m) ..).mp h
    rcases h with h | h | ⟨habout, howned⟩
    · rw [hadmin] at h
      cases h
    · exact h.elim
    · refine ⟨hlevel, habout.1, ?_⟩
      rcases hns : key.nameSpace with _ | r
      · exact .inl rfl
      · rw [hm, habout.2 r hns]
        exact .inr (.inl rfl)

/-- A permission that the new key owns is within the level of the old one. -/
theorem minted_level (hread : 2 ≤ scopeLevel key.accessLevel)
    (hfull : 3 ≤ scopeLevel req.level → req.Administers base → 3 ≤ scopeLevel key.accessLevel)
    {p : Permission} (hlevel : p.level ≤ scopeLevel req.level)
    (habout : p.about req.tenant req.nameSpace)
    (howned : p.owned (restricted base req.level req.tenant req.nameSpace at₁).roles) :
    p.level ≤ scopeLevel key.accessLevel := by
  have hkeep : ∀ x, x ∈ (restricted base req.level req.tenant req.nameSpace at₁).roles →
      req.Keeps base x := fun x hx => (mem_restricted_roles ..).mp hx
  cases p with
  | tenantAdmin x =>
    have hx : x = req.tenant := habout
    subst hx
    exact hfull hlevel (.inr (.inl (hkeep _ howned)))
  | namespaceAdmin x m =>
    obtain ⟨hx, hm⟩ := habout
    subst hx
    rcases howned with ho | ho
    · exact hfull hlevel (.inr (.inl (hkeep _ ho)))
    · exact hfull hlevel (.inr (.inr ⟨m, hm, hkeep _ ho⟩))
  | inferxAdmin => exact habout.elim
  | tenantUser x => exact hread
  | namespaceUser x m => exact hread
  | namespaceInferenceUser x m => exact Nat.le_of_succ_le hread

/-- The new key within the old one's level and restriction. -/
theorem minted_le (hadmin : (restricted base key.accessLevel key.tenant key.nameSpace
      at₀).isInferxAdmin = false) (hread : 2 ≤ scopeLevel key.accessLevel)
    (htenant : req.tenant = key.tenant)
    (hns : key.nameSpace = none ∨ req.nameSpace = key.nameSpace ∨ key.tenant = "public")
    (hgain : req.NoGain base key now) (hvalid : req.level = "full" ∨ req.level = "inference" ∨
      req.level = "read") {p : Permission}
    (hp : (restricted base req.level req.tenant req.nameSpace at₁).holds p = true) :
    (restricted base key.accessLevel key.tenant key.nameSpace at₀).holds p = true := by
  -- administration within the new restriction needs full access of the caller
  have hfull : 3 ≤ scopeLevel req.level → req.Administers base → 3 ≤ scopeLevel key.accessLevel := by
    intro hlevel had
    rcases hgain.level ((full_iff_scopeLevel hvalid).mp hlevel) with hk | hno
    · rw [hk]
      decide
    · exact absurd had hno
  have hkeep : ∀ x, x ∈ (restricted base req.level req.tenant req.nameSpace at₁).roles →
      req.Keeps base x := fun x hx => (mem_restricted_roles ..).mp hx
  obtain ⟨hlevel, hp⟩ := (restricted_holds ..).mp hp
  rw [restricted_holds]
  rcases hp with hA | hcall | ⟨habout, howned⟩
  · -- the new key would speak for an InferX administrator, and so would the caller's
    exfalso
    obtain ⟨hl, hsys, hnone, hid⟩ := (restricted_isInferxAdmin ..).mp hA
    have had : req.Administers base := by
      simp only [hasInferxAdminIdentity, Bool.or_eq_true, beq_iff_eq,
        Std.ExtTreeSet.contains_iff_mem] at hid
      rcases hid with hid | hid
      · exact .inl ⟨hid, hsys, hnone⟩
      · exact .inr (.inl (hsys ▸ hkeep _ hid))
    have hkn : key.nameSpace = none := by
      rcases hns with h | h | h
      · exact h
      · rw [← h, hnone]
      · rw [htenant, h] at hsys
        exact absurd hsys (by decide)
    have hcaller : (restricted base key.accessLevel key.tenant key.nameSpace at₀).isInferxAdmin =
        true := by
      rw [restricted_isInferxAdmin]
      refine ⟨hfull hl had, htenant ▸ hsys, hkn, ?_⟩
      rw [← htenant, hkn, ← hnone]
      exact hid
    rw [hadmin] at hcaller
    cases hcaller
  · cases p with
    | namespaceInferenceUser x m => exact ⟨by simp only [Permission.level]; omega, .inr (.inl hcall)⟩
    | _ => exact hcall.elim
  · refine ⟨minted_level hread hfull hlevel habout howned, ?_⟩
    have hwide : (key.nameSpace = none ∨ req.nameSpace = key.nameSpace) →
        p.about key.tenant key.nameSpace ∧
          p.owned (restricted base key.accessLevel key.tenant key.nameSpace at₀).roles := by
      intro hns'
      refine ⟨Permission.about_mono hns' (htenant ▸ habout), ?_⟩
      refine Permission.owned_mono (fun x hx => ?_) howned
      rw [htenant] at hx
      exact restricted_roles_mono hns' hx
    rcases hns with h | h | hpub
    · exact .inr (.inr (hwide (.inl h)))
    · exact .inr (.inr (hwide (.inr h)))
    · by_cases hinf : req.level = "inference"
      · -- a new key that may only call: all that is left is a call in `public`
        have hone : p.level ≤ 1 := by
          rw [hinf] at hlevel
          exact hlevel
        cases p with
        | namespaceInferenceUser x m =>
          exact .inr (.inl ((habout.1.trans htenant).trans hpub))
        | tenantUser x => exact absurd hone (by simp [Permission.level])
        | tenantAdmin x => exact absurd hone (by simp [Permission.level])
        | namespaceUser x m => exact absurd hone (by simp [Permission.level])
        | namespaceAdmin x m => exact absurd hone (by simp [Permission.level])
        | inferxAdmin => exact absurd hone (by simp [Permission.level])
      · exact .inr (.inr (hwide (hgain.nameSpace hpub hinf)))

/-- A new key that gives nothing new was asked for as `NoGain` says. -/
theorem noGain_of_le (hadmin : (restricted base key.accessLevel key.tenant key.nameSpace
      at₀).isInferxAdmin = false) (htenant : req.tenant = key.tenant)
    (hvalid : key.accessLevel = "full" ∨ key.accessLevel = "inference" ∨ key.accessLevel = "read")
    (hreq : req.level = "full" ∨ req.level = "inference" ∨ req.level = "read")
    (hle : ∀ p, (restricted base req.level req.tenant req.nameSpace at₁).holds p = true →
      (restricted base key.accessLevel key.tenant key.nameSpace at₀).holds p = true)
    (hexp : ∀ e, key.expiresAt = some e →
      ∃ d, req.expiresInDays = some d ∧ now + d.toNat * day ≤ e) :
    req.NoGain base key now := by
  refine ⟨hexp, fun hfull => ?_, fun hpub hinf => ?_⟩
  · -- a permission to administer of the new key needs full access of the old one
    by_cases hk : key.accessLevel = "full"
    · exact .inl hk
    · refine .inr fun had => ?_
      have hlow : ¬ 3 ≤ scopeLevel key.accessLevel := fun h => hk ((full_iff_scopeLevel hvalid).mp h)
      have hlevel : ∀ p : Permission, p.level = 3 → p.level ≤ scopeLevel req.level := by
        intro p hp
        rw [hp, hfull]
        decide
      have hkeep : ∀ x, req.Keeps base x →
          x ∈ (restricted base req.level req.tenant req.nameSpace at₁).roles :=
        fun x hx => (mem_restricted_roles ..).mpr hx
      have hbad : ∀ p : Permission, p.level = 3 →
          (restricted base req.level req.tenant req.nameSpace at₁).holds p = true → False := by
        intro p hp hn
        have := ((restricted_holds ..).mp (hle p hn)).1
        rw [hp] at this
        exact hlow this
      rcases had with ⟨huser, hsys, hnone⟩ | had | ⟨m, hm, had⟩
      · refine hbad .inferxAdmin rfl ((restricted_isInferxAdmin ..).mpr ⟨?_, hsys, hnone, ?_⟩)
        · rw [hfull]
          decide
        · rw [hasInferxAdminIdentity, Bool.or_eq_true]
          exact .inl (beq_iff_eq.mpr huser)
      · exact hbad (.tenantAdmin req.tenant) rfl ((restricted_holds ..).mpr
          ⟨hlevel _ rfl, .inr (.inr ⟨rfl, hkeep _ had⟩)⟩)
      · exact hbad (.namespaceAdmin req.tenant m) rfl ((restricted_holds ..).mpr
          ⟨hlevel _ rfl, .inr (.inr ⟨⟨rfl, hm⟩, .inr (hkeep _ had)⟩)⟩)
  · -- reading in another namespace of `public` is new
    rcases hns : key.nameSpace with _ | r
    · exact .inl rfl
    · refine .inr ?_
      have hread : 2 ≤ scopeLevel req.level := by
        rcases hreq with hv | hv | hv
        · rw [hv]
          decide
        · exact absurd hv hinf
        · rw [hv]
          decide
      have hstay : ∀ m, (∀ r, req.nameSpace = some r → m = r) → m = r := by
        intro m hm
        have hnew : (restricted base req.level req.tenant req.nameSpace at₁).holds
            (.namespaceUser req.tenant m) = true :=
          (restricted_holds ..).mpr ⟨hread, .inr (.inr ⟨⟨rfl, hm⟩, .inl (htenant.trans hpub)⟩)⟩
        obtain ⟨-, h⟩ := (restricted_holds ..).mp (hle _ hnew)
        rcases h with h | h | ⟨habout, -⟩
        · rw [hadmin] at h
          cases h
        · exact h.elim
        · exact habout.2 r hns
      rcases hreqns : req.nameSpace with _ | m
      · -- without a namespace every name may be read, a longer one too
        have hlong := hstay (r ++ "x") (fun _ h => by rw [hreqns] at h; cases h)
        have hlen := congrArg String.length hlong
        rw [String.length_append] at hlen
        exact absurd hlen (by simp)
      · rw [hstay m (fun q hq => by rw [hreqns] at hq; exact Option.some.inj hq)]

/-- **A key made with a key.** For every caller that is no InferX administrator
and every request that is accepted, the new key gives nothing new exactly when
the caller is the user itself or the request is one of `NoGain`. -/
theorem mint_iff {u : String} {g k : List String} {made : ℕ} {source : Option Apikey}
    (ht : callerToken (new u g k made) source at₀ = .ok t) (hadmin : t.isInferxAdmin = false)
    (hc : createApikey t req raw now last = .ok minted)
    (hn : applyApikeyRestrictions (new u g k made) minted at₁ = .ok n) :
    ((∀ p, n.holds p = true → t.holds p = true) ∧
      ∀ key e, source = some key → key.expiresAt = some e →
        ∃ e', minted.expiresAt = some e' ∧ e' ≤ e) ↔
      ∀ key, source = some key → req.NoGain (new u g k made) key now := by
  obtain ⟨hlevel, htenant, hnsp, hexpires, hperm⟩ := createApikey_ok hadmin hc
  cases source with
  | none =>
    obtain rfl := Except.ok.inj ht
    have hconf := confines_of_ok hn
    constructor
    · rintro - key ⟨⟩
    · intro _
      refine ⟨fun p hp => (hconf p hp).1, ?_⟩
      rintro key e ⟨⟩
  | some key =>
    obtain ⟨hvalid, rfl⟩ := applyApikeyRestrictions_ok ht
    obtain ⟨hreq, rfl⟩ := applyApikeyRestrictions_ok hn
    rw [hlevel, htenant, hnsp] at *
    obtain ⟨hread, hkt, hns⟩ := accepted_restricts hadmin hperm
    have hexp : (∀ e, key.expiresAt = some e → ∃ e', minted.expiresAt = some e' ∧ e' ≤ e) ↔
        ∀ e, key.expiresAt = some e →
          ∃ d, req.expiresInDays = some d ∧ now + d.toNat * day ≤ e := by
      rw [hexpires]
      simp only [Option.map_eq_some_iff]
      constructor
      · intro h e he
        obtain ⟨_, ⟨d, hd, rfl⟩, hle⟩ := h e he
        exact ⟨d, hd, hle⟩
      · intro h e he
        obtain ⟨d, hd, hle⟩ := h e he
        exact ⟨_, ⟨d, hd, rfl⟩, hle⟩
    constructor
    · rintro ⟨hle, he⟩ _ ⟨⟩
      exact noGain_of_le hadmin hkt hvalid hreq hle (hexp.mp fun e => he key e rfl)
    · intro h
      have hgain := h key rfl
      refine ⟨fun p hp => minted_le hadmin hread hkt hns hgain hreq hp, ?_⟩
      rintro _ e ⟨⟩ he
      exact hexp.mpr hgain.expiry e he

end Mint

/-- The body that asks for a full key in `acme`. -/
def fullRequest : ApikeyCreateRequest :=
  { keyname := "more", accessLevel := some "full", restrictTenant := some "acme" }

/-- The key it gets. -/
def fullKey : Apikey :=
  { apikey := "ix_2", username := "ann", keyname := "more", accessLevel := "full",
    restrictTenant := some "acme" }

/-- A full key of `ann` with an end. -/
def expiringKey : Apikey := { readKey with accessLevel := "full", expiresAt := some (2 * day) }

/-- The body that asks for a key for a day that may only read. -/
def dayRequest : ApikeyCreateRequest :=
  { fullRequest with accessLevel := some "read", expiresInDays := some 1 }

/-- The key it gets. -/
def dayKey : Apikey := { fullKey with accessLevel := "read", expiresAt := some day }

/-- A key that ends makes one that ends sooner and can do less. -/
theorem mint_iff_expiring :
    createApikey (restricted (new "ann" ["/tenant/admin/acme"] [] 0) "full" "acme" none 0) dayRequest "ix_2" 0
      (2 * day) = .ok dayKey ∧
    ∀ p, (restricted (new "ann" ["/tenant/admin/acme"] [] 0) "read" "acme" none 0).holds p = true →
      (restricted (new "ann" ["/tenant/admin/acme"] [] 0) "full" "acme" none 0).holds p = true := by
  have ht : callerToken (new "ann" ["/tenant/admin/acme"] [] 0) (some expiringKey) 0 =
      .ok (restricted (new "ann" ["/tenant/admin/acme"] [] 0) "full" "acme" none 0) := by rfl
  have hc : createApikey (restricted (new "ann" ["/tenant/admin/acme"] [] 0) "full" "acme" none 0) dayRequest
      "ix_2" 0 (2 * day) = .ok dayKey := by decide +kernel
  have hn : applyApikeyRestrictions (new "ann" ["/tenant/admin/acme"] [] 0) dayKey 0 =
      .ok (restricted (new "ann" ["/tenant/admin/acme"] [] 0) "read" "acme" none 0) := by rfl
  refine ⟨hc, ((mint_iff ht (by decide +kernel) hc hn).mpr ?_).1⟩
  rintro _ ⟨⟩
  refine ⟨fun e he => ⟨1, rfl, ?_⟩, fun h => absurd h (by decide +kernel), fun h => absurd h (by decide +kernel)⟩
  obtain rfl := Option.some.inj he
  decide

/-- A key of `ann` that may only read makes one with full access. -/
theorem readKey_mints_full :
    ¬ ∀ (u : String) (g k : List String) (made at₀ at₁ now last : ℕ) (source : Option Apikey)
        (t n : AccessToken) (req : ApikeyCreateRequest) (raw : String) (minted : Apikey),
      callerToken (new u g k made) source at₀ = .ok t → t.isInferxAdmin = false →
      createApikey t req raw now last = .ok minted →
      applyApikeyRestrictions (new u g k made) minted at₁ = .ok n →
      (∀ p, n.holds p = true → t.holds p = true) ∧
        ∀ key e, source = some key → key.expiresAt = some e →
          ∃ e', minted.expiresAt = some e' ∧ e' ≤ e := by
  intro h
  have hle := (h "ann" ["/tenant/admin/acme"] [] 0 0 0 0 0 (some readKey)
    (restricted (new "ann" ["/tenant/admin/acme"] [] 0) "read" "acme" none 0)
    (restricted (new "ann" ["/tenant/admin/acme"] [] 0) "full" "acme" none 0)
    fullRequest "ix_2" fullKey (by rfl) (by decide +kernel) (by decide +kernel) (by rfl)).1
      (.tenantAdmin "acme")
  exact absurd (hle (by decide +kernel)) (by decide +kernel)

end Inferx.Gateway
