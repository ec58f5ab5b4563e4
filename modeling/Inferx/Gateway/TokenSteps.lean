import Inferx.Gateway.TokenCache

/-!
# Steps of the token cache

What one step of a request can do to the caches. `Runs` lists the steps; from it
`run_effect` says where every token and every key of a step comes from,
`run_aligned` that a revocation stays with the user it is about, and `run_done` how
a change returns. No proof about runs looks at the steps again.
-/

namespace Inferx.Gateway.TokenCache

/-! ## What one step can do -/

/-- The steps there are. -/
inductive Runs (st : Store) : Task → Store → Step → Prop where
  | admin {k : String} : st.inferxAdminApikey ≠ "" → k = st.inferxAdminApikey →
      Runs st (.keyLookup k) st (.answer (some k) (inferxAdminToken st.now))
  | keyHit {k : String} {tok : AccessToken} : st.apikeyStore[k]? = some tok →
      Runs st (.keyLookup k) st (.answer (some k) tok)
  | keyStale {k : String} : Runs st (.keyLookup k) st (.goOn (.keyDrop k))
  | keyMiss {k : String} : Runs st (.keyLookup k) st (.goOn (.keyRow k))
  | keyDrop {k : String} :
      Runs st (.keyDrop k) { st with apikeyStore := st.apikeyStore.erase k } (.goOn (.keyRow k))
  | keyRow {k : String} {key : Apikey} : st.db.getApikey k = some key →
      Runs st (.keyRow k) st (.goOn (.userLookup key.username (.byApikey key)))
  | userHit {u : String} {c : Caller} {tok : AccessToken} : st.usernameStore[u]? = some tok →
      Runs st (.userLookup u c) st (st.resume u tok c)
  | userMiss {u : String} {c : Caller} {old : Option AccessToken} :
      Runs st (.userLookup u c) st (.goOn (.userKeys u old c))
  | userKeys {u : String} {old : Option AccessToken} {c : Caller} :
      Runs st (.userKeys u old c) st (.goOn (.userRoles u old (st.db.getApikeys u) c))
  | userRoles {u : String} {old : Option AccessToken} {keys : List String} {c : Caller} :
      Runs st (.userRoles u old keys c) st
        (.goOn (.replace old (AccessToken.new u (st.db.getRoles u) keys st.now) c))
  | replace {old : Option AccessToken} {tok : AccessToken} {c : Caller} :
      Runs st (.replace old tok c) (st.replace old tok) (st.resume tok.username tok c)
  | keyInsert {k : String} {tok : AccessToken} :
      Runs st (.keyInsert k tok) { st with apikeyStore := st.apikeyStore.insert k tok }
        (.answer (some k) tok)
  | deleteRole {u : String} {b : Binding} {tok : AccessToken} :
      Runs st (.deleteRole u b tok) { st with db := st.db.deleteRole u b.role }
        (.goOn (.evict tok (.revoked u b.role)))
  | addRole {u : String} {b : Binding} {tok : AccessToken} {db : SqlSecret} :
      Runs st (.addRole u b tok) { st with db := db } (.goOn (.evict tok .granted))
  | evict {tok : AccessToken} {d : Outcome} :
      Runs st (.evict tok d) { st with locked := true } (.goOn (.evicting tok.apiKeys tok.username d))
  | evictKey {k : String} {ks : List String} {u : String} {d : Outcome} :
      Runs st (.evicting (k :: ks) u d) { st with apikeyStore := st.apikeyStore.erase k }
        (.goOn (.evicting ks u d))
  | evictUser {u : String} {d : Outcome} :
      Runs st (.evicting [] u d)
        { st with usernameStore := st.usernameStore.erase u, locked := false } (.done d)
  | deleteNone {name u : String} {db : SqlSecret} :
      Runs st (.deleteApikey name u) { st with db := db } (.done (.deleted []))
  | deleteApikey {name u : String} {db : SqlSecret} {keys : List String} :
      Runs st (.deleteApikey name u) { st with db := db } (.goOn (.removeKeys keys u))
  | removeKeys {keys : List String} {u : String} :
      Runs st (.removeKeys keys u) { st with apikeyStore := removeAll st.apikeyStore keys }
        (.goOn (.removeUser u (.deleted keys)))
  | createApikey {key : Apikey} {db : SqlSecret} :
      Runs st (.createApikey key) { st with db := db } (.goOn (.removeUser key.username .created))
  | removeUser {u : String} {d : Outcome} :
      Runs st (.removeUser u d) { st with usernameStore := st.usernameStore.erase u } (.done d)
  | failed {t : Task} : Runs st t st .failed

section Step

variable {st st' : Store} {t t' : Task} {out : Step} {k u r : String} {tok tok' : AccessToken}

/-- **One step** is one of these. -/
theorem runs_of_run (h : st.run t = some (st', out)) : Runs st t st' out := by
  cases t with
  | keyLookup k =>
    simp only [Store.run] at h
    split at h
    next hadmin =>
      cases h
      exact .admin hadmin.1 hadmin.2
    next =>
      split at h
      next tok hget =>
        split at h
        next =>
          cases h
          exact .keyStale
        next =>
          cases h
          exact .keyHit hget
      next =>
        cases h
        exact .keyMiss
  | keyDrop k =>
    cases h
    exact .keyDrop
  | keyRow k =>
    simp only [Store.run] at h
    split at h
    next =>
      cases h
      exact .failed
    next key hkey =>
      split at h
      next =>
        cases h
        exact .failed
      next =>
        cases h
        exact .keyRow hkey
  | userLookup w c =>
    simp only [Store.run] at h
    split at h
    next tok hget =>
      split at h
      next =>
        cases h
        exact .userMiss
      next =>
        cases h
        exact .userHit hget
    next =>
      cases h
      exact .userMiss
  | userKeys w old c =>
    cases h
    exact .userKeys
  | userRoles w old keys c =>
    cases h
    exact .userRoles
  | replace old tok c =>
    simp only [Store.run] at h
    split at h
    next => cases h
    next =>
      cases h
      exact .replace
  | keyInsert k tok =>
    cases h
    exact .keyInsert
  | deleteRole w b tok =>
    cases h
    exact .deleteRole
  | addRole w b tok =>
    simp only [Store.run] at h
    split at h
    next =>
      cases h
      exact .failed
    next =>
      cases h
      exact .addRole
  | evict tok d =>
    simp only [Store.run] at h
    split at h
    next => cases h
    next =>
      cases h
      exact .evict
  | evicting keys w d =>
    cases keys with
    | nil =>
      cases h
      exact .evictUser
    | cons k ks =>
      cases h
      exact .evictKey
  | deleteApikey name w =>
    simp only [Store.run] at h
    split at h
    next =>
      cases h
      exact .deleteNone
    next =>
      cases h
      exact .deleteApikey
  | removeKeys keys w =>
    cases h
    exact .removeKeys
  | createApikey key =>
    simp only [Store.run] at h
    split at h
    next =>
      cases h
      exact .failed
    next =>
      cases h
      exact .createApikey
  | removeUser w d =>
    cases h
    exact .removeUser

theorem get_removeAll {m : BTreeMap String AccessToken} {keys : List String}
    (h : (removeAll m keys)[k]? = some tok) : m[k]? = some tok ∧ k ∉ keys := by
  induction keys generalizing m with
  | nil => exact ⟨h, List.not_mem_nil⟩
  | cons k' keys ih =>
    obtain ⟨hm, hk⟩ := ih h
    obtain ⟨hne, hm⟩ := BTreeMap.get_erase_eq_some.mp hm
    exact ⟨hm, List.not_mem_cons_of_ne_of_not_mem hne hk⟩

/-- What becomes of the token that `GetTokenByUsername` has found. -/
theorem resume_cases (st : Store) (u : String) (tok : AccessToken) (c : Caller) :
    (c = .session ∧ st.resume u tok c = .answer none tok) ∨
    (∃ key tok', c = .byApikey key ∧ applyApikeyRestrictions tok key st.now = .ok tok' ∧
      st.resume u tok c = .goOn (.keyInsert key.apikey tok')) ∨
    (∃ b, st.resume u tok c = .goOn (.deleteRole u b tok)) ∨
    (∃ b, st.resume u tok c = .goOn (.addRole u b tok)) ∨
    st.resume u tok c = .failed := by
  cases c with
  | session => exact .inl ⟨rfl, rfl⟩
  | byApikey key =>
    simp only [Store.resume]
    split
    next tok' hok => exact .inr (.inl ⟨key, tok', rfl, hok, rfl⟩)
    next => simp
  | revoke b =>
    simp only [Store.resume]
    split
    next => simp
    next => simp
  | grant b =>
    simp only [Store.resume]
    split
    next => simp
    next => simp

/-- The token is in a cache, or the request is about to insert it. -/
def Held (st : Store) (t : Task) (tok : AccessToken) : Prop :=
  (∃ k : String, st.usernameStore[k]? = some tok) ∨ (∃ k : String, st.apikeyStore[k]? = some tok) ∨
    t.token? = some tok

/-- Where the tokens and the keys of a step come from. -/
structure Effect (st : Store) (t : Task) (st' : Store) (out : Step) : Prop where
  /-- what is cached for a user was cached, or was about to be -/
  user : ∀ (k : String) (tok : AccessToken), st'.usernameStore[k]? = some tok →
    st.usernameStore[k]? = some tok ∨ (t.token? = some tok ∧ k = tok.username)
  /-- what is cached for a key was cached, or was about to be -/
  key : ∀ (k : String) (tok : AccessToken), st'.apikeyStore[k]? = some tok →
    st.apikeyStore[k]? = some tok ∨ (t.token? = some tok ∧ t.apikey? = some k)
  /-- what is about to be cached has the roles of the database, or restricts a token that is there -/
  token : ∀ t' tok, out = .goOn t' → t'.token? = some tok →
    (∃ u keys, tok = AccessToken.new u (st.db.getRoles u) keys st.now) ∨
      ∃ base key, Held st t base ∧ applyApikeyRestrictions base key st.now = .ok tok
  /-- the row of a key was read before, or is in the database -/
  apikey : ∀ t' k, out = .goOn t' → t'.apikey? = some k →
    t.apikey? = some k ∨ ∃ row ∈ st.db.apikeys, row.apikey = k
  /-- what is returned is there, or is the administrator's -/
  answer : ∀ a tok, out = .answer a tok →
    (tok = inferxAdminToken st.now ∧ st.inferxAdminApikey ≠ "" ∧ a = some st.inferxAdminApikey) ∨
      (Held st t tok ∧ ∀ k, a = some k → st.apikeyStore[k]? = some tok ∨ t.apikey? = some k)
  /-- the configuration stays -/
  admin : st'.inferxAdminApikey = st.inferxAdminApikey

/-- A step that goes on with nothing new. -/
theorem Effect.goOn
    (huser : ∀ (k : String) (tok : AccessToken), st'.usernameStore[k]? = some tok →
      st.usernameStore[k]? = some tok)
    (hkey : ∀ (k : String) (tok : AccessToken), st'.apikeyStore[k]? = some tok →
      st.apikeyStore[k]? = some tok)
    (hadmin : st'.inferxAdminApikey = st.inferxAdminApikey) (htoken : t'.token? = none)
    (hapikey : ∀ k, t'.apikey? = some k → t.apikey? = some k) : Effect st t st' (.goOn t') where
  user k tok h := .inl (huser k tok h)
  key k tok h := .inl (hkey k tok h)
  token := by
    rintro _ tok ⟨⟩ htok
    rw [htoken] at htok
    cases htok
  apikey := by
    rintro _ k ⟨⟩ hk
    exact .inl (hapikey k hk)
  answer := by rintro _ _ ⟨⟩
  admin := hadmin

/-- A step that ends the request without a token. -/
theorem Effect.ends
    (huser : ∀ (k : String) (tok : AccessToken), st'.usernameStore[k]? = some tok →
      st.usernameStore[k]? = some tok)
    (hkey : ∀ (k : String) (tok : AccessToken), st'.apikeyStore[k]? = some tok →
      st.apikeyStore[k]? = some tok)
    (hadmin : st'.inferxAdminApikey = st.inferxAdminApikey) (hgoOn : ∀ t', out ≠ .goOn t')
    (hanswer : ∀ a tok, out ≠ .answer a tok) : Effect st t st' out where
  user k tok h := .inl (huser k tok h)
  key k tok h := .inl (hkey k tok h)
  token t' _ h := absurd h (hgoOn t')
  apikey t' _ h := absurd h (hgoOn t')
  answer a tok h := absurd h (hanswer a tok)
  admin := hadmin

/-- The step that hands a token to the caller of `GetTokenByUsername`. -/
theorem Effect.resume {c : Caller} (hheld : Held st t tok) (hc : t.apikey? = c.apikey?)
    (huser : ∀ (k : String) (tok : AccessToken), st'.usernameStore[k]? = some tok →
      st.usernameStore[k]? = some tok ∨ (t.token? = some tok ∧ k = tok.username))
    (hkey : ∀ (k : String) (tok : AccessToken), st'.apikeyStore[k]? = some tok →
      st.apikeyStore[k]? = some tok)
    (hadmin : st'.inferxAdminApikey = st.inferxAdminApikey) :
    Effect st t st' (st.resume u tok c) := by
  refine ⟨huser, fun k tok h => .inl (hkey k tok h), ?_, ?_, ?_, hadmin⟩
  · intro t' tok' hout htok
    obtain ⟨-, h⟩ | ⟨key, tok₁, -, hok, h⟩ | ⟨b, h⟩ | ⟨b, h⟩ | h := resume_cases st u tok c <;>
      rw [h] at hout <;> cases hout
    · obtain rfl := Option.some.inj htok
      exact .inr ⟨tok, key, hheld, hok⟩
    · cases htok
    · cases htok
  · intro t' k hout hk
    obtain ⟨-, h⟩ | ⟨key, tok₁, hbk, -, h⟩ | ⟨b, h⟩ | ⟨b, h⟩ | h := resume_cases st u tok c <;>
      rw [h] at hout <;> cases hout
    · rw [hc, hbk]
      exact .inl hk
    · cases hk
    · cases hk
  · intro a tok' hout
    obtain ⟨-, h⟩ | ⟨key, tok₁, -, -, h⟩ | ⟨b, h⟩ | ⟨b, h⟩ | h := resume_cases st u tok c <;>
      rw [h] at hout <;> cases hout
    exact .inr ⟨hheld, fun k hk => by cases hk⟩

theorem of_get_erase {m : BTreeMap String AccessToken} {k' : String}
    (h : (m.erase k')[k]? = some tok) : m[k]? = some tok :=
  (BTreeMap.get_erase_eq_some.mp h).2

theorem replace_user {old : Option AccessToken} (h : (st.replace old tok).usernameStore[k]? = some tok') :
    st.usernameStore[k]? = some tok' ∨ (tok = tok' ∧ k = tok'.username) := by
  cases old with
  | none =>
    simp only [Store.replace, BTreeMap.get_insert] at h
    split at h
    next hk =>
      obtain rfl := Option.some.inj h
      exact .inr ⟨rfl, hk⟩
    next => exact .inl h
  | some old =>
    simp only [Store.replace, BTreeMap.get_insert] at h
    split at h
    next hk =>
      obtain rfl := Option.some.inj h
      exact .inr ⟨rfl, hk⟩
    next => exact .inl (of_get_erase h)

theorem replace_key {old : Option AccessToken} (h : (st.replace old tok).apikeyStore[k]? = some tok') :
    st.apikeyStore[k]? = some tok' := by
  cases old with
  | none => exact h
  | some old => exact (get_removeAll h).1

theorem replace_admin (old : Option AccessToken) :
    (st.replace old tok).inferxAdminApikey = st.inferxAdminApikey := by
  cases old with
  | none => rfl
  | some old => rfl

/-- **One step** brings nothing from elsewhere. -/
theorem run_effect (h : st.run t = some (st', out)) : Effect st t st' out := by
  cases runs_of_run h with
  | admin hne hk =>
    refine ⟨fun _ _ h => .inl h, fun _ _ h => .inl h, ?_, ?_, ?_, rfl⟩
    · rintro _ _ ⟨⟩
    · rintro _ _ ⟨⟩
    · rintro _ _ ⟨⟩
      exact .inl ⟨rfl, hne, congrArg some hk⟩
  | keyHit hget =>
    refine ⟨fun _ _ h => .inl h, fun _ _ h => .inl h, ?_, ?_, ?_, rfl⟩
    · rintro _ _ ⟨⟩
    · rintro _ _ ⟨⟩
    · rintro _ _ ⟨⟩
      refine .inr ⟨.inr (.inl ⟨_, hget⟩), ?_⟩
      rintro _ ⟨⟩
      exact .inl hget
  | keyStale =>
    refine .goOn (fun _ _ h => h) (fun _ _ h => h) rfl rfl ?_
    rintro _ ⟨⟩
  | keyMiss =>
    refine .goOn (fun _ _ h => h) (fun _ _ h => h) rfl rfl ?_
    rintro _ ⟨⟩
  | keyDrop =>
    refine .goOn (fun _ _ h => h) (fun _ _ h => of_get_erase h) rfl rfl ?_
    rintro _ ⟨⟩
  | keyRow hkey =>
    refine ⟨fun _ _ h => .inl h, fun _ _ h => .inl h, ?_, ?_, ?_, rfl⟩
    · rintro _ _ ⟨⟩ ⟨⟩
    · rintro _ k' ⟨⟩ hk
      exact .inr ⟨_, List.mem_of_find?_eq_some hkey, Option.some.inj hk⟩
    · rintro _ _ ⟨⟩
  | userHit hget => exact .resume (.inl ⟨_, hget⟩) rfl (fun _ _ h => .inl h) (fun _ _ h => h) rfl
  | userMiss => exact .goOn (fun _ _ h => h) (fun _ _ h => h) rfl rfl fun _ hk => hk
  | userKeys => exact .goOn (fun _ _ h => h) (fun _ _ h => h) rfl rfl fun _ hk => hk
  | userRoles =>
    refine ⟨fun _ _ h => .inl h, fun _ _ h => .inl h, ?_, ?_, ?_, rfl⟩
    · rintro _ tok ⟨⟩ htok
      exact .inl ⟨_, _, (Option.some.inj htok).symm⟩
    · rintro _ _ ⟨⟩ hk
      exact .inl hk
    · rintro _ _ ⟨⟩
  | replace =>
    refine .resume (.inr (.inr rfl)) rfl ?_ (fun _ _ h => replace_key h) (replace_admin _)
    intro k tok' hget
    obtain hold | ⟨rfl, hk⟩ := replace_user hget
    · exact .inl hold
    · exact .inr ⟨rfl, hk⟩
  | keyInsert =>
    refine ⟨fun _ _ h => .inl h, ?_, ?_, ?_, ?_, rfl⟩
    · intro k' tok' hget
      rw [BTreeMap.get_insert] at hget
      split at hget
      next hk =>
        obtain rfl := Option.some.inj hget
        exact .inr ⟨rfl, congrArg some hk.symm⟩
      next => exact .inl hget
    · rintro _ _ ⟨⟩
    · rintro _ _ ⟨⟩
    · rintro _ _ ⟨⟩
      exact .inr ⟨.inr (.inr rfl), fun k' hk => .inr hk⟩
  | deleteRole =>
    refine .goOn (fun _ _ h => h) (fun _ _ h => h) rfl rfl ?_
    rintro _ ⟨⟩
  | addRole =>
    refine .goOn (fun _ _ h => h) (fun _ _ h => h) rfl rfl ?_
    rintro _ ⟨⟩
  | evict =>
    refine .goOn (fun _ _ h => h) (fun _ _ h => h) rfl rfl ?_
    rintro _ ⟨⟩
  | evictKey =>
    refine .goOn (fun _ _ h => h) (fun _ _ h => of_get_erase h) rfl rfl ?_
    rintro _ ⟨⟩
  | evictUser =>
    refine .ends (fun _ _ h => of_get_erase h) (fun _ _ h => h) rfl ?_ ?_
    · rintro _ ⟨⟩
    · rintro _ _ ⟨⟩
  | deleteNone =>
    refine .ends (fun _ _ h => h) (fun _ _ h => h) rfl ?_ ?_
    · rintro _ ⟨⟩
    · rintro _ _ ⟨⟩
  | deleteApikey =>
    refine .goOn (fun _ _ h => h) (fun _ _ h => h) rfl rfl ?_
    rintro _ ⟨⟩
  | removeKeys =>
    refine .goOn (fun _ _ h => h) (fun _ _ h => (get_removeAll h).1) rfl rfl ?_
    rintro _ ⟨⟩
  | createApikey =>
    refine .goOn (fun _ _ h => h) (fun _ _ h => h) rfl rfl ?_
    rintro _ ⟨⟩
  | removeUser =>
    refine .ends (fun _ _ h => of_get_erase h) (fun _ _ h => h) rfl ?_ ?_
    · rintro _ ⟨⟩
    · rintro _ _ ⟨⟩
  | failed =>
    refine .ends (fun _ _ h => h) (fun _ _ h => h) rfl ?_ ?_
    · rintro _ ⟨⟩
    · rintro _ _ ⟨⟩

end Step

/-! ## Whose entry is evicted -/

/-- What an eviction of a user's entry may be for. -/
def Outcome.evicts (w : String) : Outcome → Prop
  | revoked u _ => w = u
  | granted => True
  | deleted _ => False
  | created => False

/-- What the end of a change of keys may be for. -/
def Outcome.ofKeys : Outcome → Prop
  | deleted _ => True
  | created => True
  | _ => False

/-- A revocation works with a token of the user it is about. -/
def Task.aligned : Task → Prop
  | deleteRole u _ tok => tok.username = u
  | evict tok d => d.evicts tok.username
  | evicting _ w d => d.evicts w
  | removeUser _ d => d.ofKeys
  | _ => True

section Aligned

variable {st st' : Store} {t t' : Task} {tok : AccessToken} {u r : String}

theorem resume_aligned {c : Caller} (htok : tok.username = u) (h : st.resume u tok c = .goOn t') :
    t'.aligned := by
  obtain ⟨-, h'⟩ | ⟨key, tok₁, -, -, h'⟩ | ⟨b, h'⟩ | ⟨b, h'⟩ | h' := resume_cases st u tok c <;>
    rw [h'] at h <;> cases h
  · trivial
  · exact htok
  · trivial

theorem run_aligned
    (hkeyed : ∀ (k : String) (tok : AccessToken), st.usernameStore[k]? = some tok → tok.username = k)
    (ht : t.aligned) (h : st.run t = some (st', .goOn t')) : t'.aligned := by
  generalize hout : Step.goOn t' = out at h
  cases runs_of_run h with
  | userHit hget => exact resume_aligned (hkeyed _ _ hget) hout.symm
  | replace => exact resume_aligned rfl hout.symm
  | deleteRole =>
    cases hout
    exact ht
  | evict =>
    cases hout
    exact ht
  | evictKey =>
    cases hout
    exact ht
  -- the other steps go on with a task that evicts nobody, or do not go on
  | _ =>
    cases hout
    try trivial

/-- How a change returns. -/
theorem run_done {d : Outcome} (ht : t.aligned) (h : st.run t = some (st', .done d)) :
    (∃ w, t = .evicting [] w d ∧ d.evicts w ∧
      st' = { st with usernameStore := st.usernameStore.erase w, locked := false }) ∨
    (∃ w, t = .removeUser w d ∧ d.ofKeys ∧
      st' = { st with usernameStore := st.usernameStore.erase w }) ∨
    d = .deleted [] := by
  generalize hout : Step.done d = out at h
  have hresume : ∀ u tok c, st.resume u tok c ≠ .done d := by
    intro u tok c
    obtain ⟨-, h'⟩ | ⟨key, tok₁, -, -, h'⟩ | ⟨b, h'⟩ | ⟨b, h'⟩ | h' := resume_cases st u tok c <;>
      simp [h']
  cases runs_of_run h with
  | userHit => exact absurd hout.symm (hresume _ _ _)
  | replace => exact absurd hout.symm (hresume _ _ _)
  | evictUser =>
    cases hout
    exact .inl ⟨_, rfl, ht, rfl⟩
  | deleteNone =>
    cases hout
    exact .inr (.inr rfl)
  | removeUser =>
    cases hout
    exact .inr (.inl ⟨_, rfl, ht, rfl⟩)
  | _ => cases hout

end Aligned

end Inferx.Gateway.TokenCache
