import Inferx.Gateway.TokenSteps

/-!
# Revocations take effect

A role that was revoked is gone when it is in no cache and no look-up is about to
insert it: from then on only the database could bring it back, and there it is
deleted. The same goes for a key. `revocation_effective` says so for every run in
which each revocation and each deletion leaves nothing behind when it returns;
`stale_insert_survives` is a run in which a look-up that has read the role before
inserts it afterwards.
-/

namespace Inferx.Gateway.TokenCache

/-! ## Nothing is left -/

/-- No token with a property is cached or about to be. -/
structure Free (P : AccessToken → Prop) (st : Store) (procs : List Proc) : Prop where
  /-- for users -/
  user : ∀ (k : String) (tok : AccessToken), st.usernameStore[k]? = some tok → ¬ P tok
  /-- for keys -/
  key : ∀ (k : String) (tok : AccessToken), st.apikeyStore[k]? = some tok → ¬ P tok
  /-- in flight -/
  flight : ∀ p ∈ procs, ∀ tok, p.task.token? = some tok → ¬ P tok

/-- A key that no look-up is served with. -/
structure Gone (k : String) (st : Store) (procs : List Proc) : Prop where
  /-- it has no row -/
  db : ∀ row ∈ st.db.apikeys, row.apikey ≠ k
  /-- no token is cached for it -/
  cache : st.apikeyStore[k]? = none
  /-- no look-up has read its row -/
  flight : ∀ p ∈ procs, p.task.apikey? ≠ some k
  /-- it is not the key of the configuration -/
  admin : st.inferxAdminApikey = "" ∨ k ≠ st.inferxAdminApikey

section Left

variable {P : AccessToken → Prop} {st st' : Store} {procs : List Proc} {p : Proc} {out : Step}
  {k u r : String} {tok : AccessToken}

theorem Free.held (h : Free P st procs) (hp : p ∈ procs) (htok : Held st p.task tok) : ¬ P tok := by
  obtain ⟨k, hk⟩ | ⟨k, hk⟩ | hflight := htok
  · exact h.user k tok hk
  · exact h.key k tok hk
  · exact h.flight p hp tok hflight

/-- A step brings no token with the property, if the database gives none. -/
theorem Free.step (h : Free P st procs) (hp : p ∈ procs) (hrun : st.run p.task = some (st', out))
    (hdb : ∀ u keys, ¬ P (AccessToken.new u (st.db.getRoles u) keys st.now))
    (hadmin : ¬ P (inferxAdminToken st.now))
    (hrestrict : ∀ base key now tok, applyApikeyRestrictions base key now = .ok tok → P tok → P base) :
    (∀ procs', (∀ q ∈ procs', q ∈ procs ∨ ∃ t', out = .goOn t' ∧ q.task = t') → Free P st' procs') ∧
      ∀ a tok, out = .answer a tok → ¬ P tok := by
  have heff := run_effect hrun
  refine ⟨fun procs' hprocs => ⟨?_, ?_, ?_⟩, ?_⟩
  · intro k tok hget
    obtain hold | ⟨hflight, -⟩ := heff.user k tok hget
    · exact h.user k tok hold
    · exact h.flight p hp tok hflight
  · intro k tok hget
    obtain hold | ⟨hflight, -⟩ := heff.key k tok hget
    · exact h.key k tok hold
    · exact h.flight p hp tok hflight
  · intro q hq tok htok
    obtain hold | ⟨t', hout, rfl⟩ := hprocs q hq
    · exact h.flight q hold tok htok
    · obtain ⟨u, keys, rfl⟩ | ⟨base, key, hheld, hok⟩ := heff.token q.task tok hout htok
      · exact hdb u keys
      · exact fun hbad => h.held hp hheld (hrestrict base key st.now tok hok hbad)
  · intro a tok hout
    obtain ⟨rfl, -, -⟩ | ⟨hheld, -⟩ := heff.answer a tok hout
    · exact hadmin
    · exact h.held hp hheld

/-- A step does not bring a key back that has no row afterwards. -/
theorem Gone.step (h : Gone k st procs) (hp : p ∈ procs) (hrun : st.run p.task = some (st', out))
    (hdb : ∀ row ∈ st'.db.apikeys, row.apikey ≠ k) :
    (∀ procs', (∀ q ∈ procs', q ∈ procs ∨ ∃ t', out = .goOn t' ∧ q.task = t') → Gone k st' procs') ∧
      ∀ a tok, out = .answer a tok → a ≠ some k := by
  have heff := run_effect hrun
  refine ⟨fun procs' hprocs => ⟨hdb, ?_, ?_, heff.admin ▸ h.admin⟩, ?_⟩
  · rcases hget : st'.apikeyStore[k]? with _ | tok
    · rfl
    · obtain hold | ⟨-, hflight⟩ := heff.key k tok hget
      · rw [h.cache] at hold
        cases hold
      · exact absurd hflight (h.flight p hp)
  · intro q hq hk
    obtain hold | ⟨t', hout, rfl⟩ := hprocs q hq
    · exact h.flight q hold hk
    · obtain hflight | ⟨row, hrow, heq⟩ := heff.apikey q.task k hout hk
      · exact h.flight p hp hflight
      · exact h.db row hrow heq
  · rintro a tok hout rfl
    obtain ⟨-, hne, heq⟩ | ⟨-, hkey⟩ := heff.answer _ tok hout
    · obtain hnil | hk := h.admin
      · exact hne hnil
      · exact hk (Option.some.inj heq)
    · obtain hget | hflight := hkey k rfl
      · rw [h.cache] at hget
        cases hget
      · exact h.flight p hp hflight

/-- The roles of a new token are those of the database. -/
theorem carries_new {db : SqlSecret} {keys : List String} {now : ℕ} {w : String}
    (h : carries u r (AccessToken.new w (db.getRoles w) keys now) = true) : (u, r) ∈ db.roles := by
  simp only [carries, AccessToken.new, Bool.and_eq_true, beq_iff_eq] at h
  obtain ⟨rfl, hr⟩ := h
  rw [Std.ExtTreeSet.contains_iff_mem, Std.ExtTreeSet.mem_ofList, List.contains_iff_mem] at hr
  obtain ⟨e, he, rfl⟩ := List.mem_map.mp hr
  obtain ⟨hmem, hname⟩ := List.mem_filter.mp he
  rw [← eq_of_beq hname]
  exact hmem

theorem carries_restricted {base : AccessToken} {key : Apikey} {now : ℕ}
    (hok : applyApikeyRestrictions base key now = .ok tok) (h : carries u r tok = true) :
    carries u r base = true := by
  obtain ⟨-, rfl⟩ := applyApikeyRestrictions_ok hok
  simp only [carries, restricted, Bool.and_eq_true, beq_iff_eq, Std.ExtTreeSet.contains_iff_mem,
    Std.ExtTreeSet.mem_filter] at h ⊢
  exact ⟨h.1, h.2.1⟩

theorem not_carries_admin (now : ℕ) : ¬ carries u r (inferxAdminToken now) = true := by
  simp [carries, inferxAdminToken]

end Left

/-! ## The invariant -/

/-- What holds of every run in which nothing is left behind. -/
structure Inv (s : State) : Prop where
  /-- the entry of a user is a token of the user -/
  keyed : ∀ (k : String) (tok : AccessToken), s.usernameStore[k]? = some tok → tok.username = k
  /-- revocations are about the user whose token they have -/
  aligned : ∀ p ∈ s.procs, p.task.aligned
  /-- nothing is left of a role that was revoked -/
  revoked : ∀ n u r, (n, u, r) ∈ s.revoked → (u, r) ∉ s.db.roles ∧
    Free (fun tok => carries u r tok = true) s.toStore s.procs
  /-- nothing is left of a key that was deleted -/
  deleted : ∀ n k, (n, k) ∈ s.deleted → Gone k s.toStore s.procs
  /-- and no look-up has returned it -/
  effective : s.Effective

section Invariant

variable {s s' : State} {i : ℕ} {p : Proc} {st : Store} {out : Step}

theorem toStore_after : (s.after i p st out).toStore = st := by
  cases out with
  | goOn t => rfl
  | answer k t => rfl
  | done d => rfl
  | failed => rfl

theorem mem_procs_after {q : Proc} (h : q ∈ (s.after i p st out).procs) :
    q ∈ s.procs ∨ ∃ t', out = .goOn t' ∧ q.task = t' := by
  cases out with
  | goOn t =>
    obtain hold | rfl := List.mem_or_eq_of_mem_set h
    · exact .inl hold
    · exact .inr ⟨t, rfl, rfl⟩
  | answer k t => exact .inl (List.mem_of_mem_eraseIdx h)
  | done d => exact .inl (List.mem_of_mem_eraseIdx h)
  | failed => exact .inl (List.mem_of_mem_eraseIdx h)

theorem mem_revoked_after {n : ℕ} {u r : String} (h : (n, u, r) ∈ (s.after i p st out).revoked) :
    (u, r) ∉ st.db.roles ∧
      ((n, u, r) ∈ s.revoked ∨ out = .done (.revoked u r)) := by
  cases out with
  | done d =>
    obtain ⟨hmem, hdb⟩ := List.mem_filter.mp h
    refine ⟨of_decide_eq_true hdb, ?_⟩
    obtain hnew | hold := List.mem_append.mp hmem
    · cases d with
      | revoked u' r' =>
        obtain ⟨-, rfl, rfl⟩ := by simpa [State.newRevoked] using hnew
        exact .inr rfl
      | granted => cases hnew
      | deleted keys => cases hnew
      | created => cases hnew
    · exact .inl hold
  | goOn t =>
    obtain ⟨hmem, hdb⟩ := List.mem_filter.mp h
    exact ⟨of_decide_eq_true hdb, .inl hmem⟩
  | answer k t =>
    obtain ⟨hmem, hdb⟩ := List.mem_filter.mp h
    exact ⟨of_decide_eq_true hdb, .inl hmem⟩
  | failed =>
    obtain ⟨hmem, hdb⟩ := List.mem_filter.mp h
    exact ⟨of_decide_eq_true hdb, .inl hmem⟩

theorem mem_deleted_after {n : ℕ} {k : String} (h : (n, k) ∈ (s.after i p st out).deleted) :
    (∀ row ∈ st.db.apikeys, row.apikey ≠ k) ∧
      ((n, k) ∈ s.deleted ∨ ∃ keys, out = .done (.deleted keys) ∧ k ∈ keys) := by
  have hrows : ∀ {e : ℕ × String}, (st.db.apikeys.all fun k => k.apikey ≠ e.2) = true →
      ∀ row ∈ st.db.apikeys, row.apikey ≠ e.2 := by
    intro e hall row hrow
    exact of_decide_eq_true (List.all_eq_true.mp hall row hrow)
  cases out with
  | done d =>
    obtain ⟨hmem, hdb⟩ := List.mem_filter.mp h
    refine ⟨hrows hdb, ?_⟩
    obtain hnew | hold := List.mem_append.mp hmem
    · cases d with
      | revoked u' r' => cases hnew
      | granted => cases hnew
      | deleted keys =>
        obtain ⟨hk, -⟩ := by simpa [State.newDeleted] using hnew
        exact .inr ⟨keys, rfl, hk⟩
      | created => cases hnew
    · exact .inl hold
  | goOn t =>
    obtain ⟨hmem, hdb⟩ := List.mem_filter.mp h
    exact ⟨hrows hdb, .inl hmem⟩
  | answer k t =>
    obtain ⟨hmem, hdb⟩ := List.mem_filter.mp h
    exact ⟨hrows hdb, .inl hmem⟩
  | failed =>
    obtain ⟨hmem, hdb⟩ := List.mem_filter.mp h
    exact ⟨hrows hdb, .inl hmem⟩

/-- A revocation that returns has evicted the user, and leaves the rest to the condition. -/
theorem Inv.revocation (h : Inv s) (hp : p ∈ s.procs) {u r : String}
    (hrun : s.toStore.run p.task = some (st, .done (.revoked u r)))
    (hleft : s.leavesNothing p.task = true) (hdb : (u, r) ∉ st.db.roles) {procs : List Proc}
    (hprocs : ∀ q ∈ procs, q ∈ s.procs) :
    Free (fun tok => carries u r tok = true) st procs := by
  obtain ⟨w, ht, rfl, rfl⟩ | ⟨w, -, hkeys, -⟩ | hnil := run_done (h.aligned p hp) hrun
  · simp only [ht, State.leavesNothing, Bool.or_eq_true, decide_eq_true_eq, Bool.and_eq_true,
      List.all_eq_true] at hleft
    obtain hback | ⟨hkey, hflight⟩ := hleft
    · exact absurd hback hdb
    · refine ⟨?_, ?_, ?_⟩
      · intro k tok hget hbad
        obtain ⟨hne, hold⟩ := BTreeMap.get_erase_eq_some.mp hget
        rw [carries, Bool.and_eq_true, beq_iff_eq, h.keyed k tok hold] at hbad
        exact hne hbad.1
      · intro k tok hget
        simpa using hkey (k, tok) (BTreeMap.mem_toList.mpr hget)
      · intro q hq tok htok
        have hall := hflight q (hprocs q hq)
        rw [htok] at hall
        simpa using hall
  · exact hkeys.elim
  · cases hnil

/-- A deletion that returns leaves everything to the condition. -/
theorem Inv.deletion (h : Inv s) (hp : p ∈ s.procs) {keys : List String} {k : String}
    (hrun : s.toStore.run p.task = some (st, .done (.deleted keys))) (hk : k ∈ keys)
    (hleft : s.leavesNothing p.task = true) (hdb : ∀ row ∈ st.db.apikeys, row.apikey ≠ k)
    {procs : List Proc} (hprocs : ∀ q ∈ procs, q ∈ s.procs) : Gone k st procs := by
  obtain ⟨w, -, hevicts, -⟩ | ⟨w, ht, -, rfl⟩ | hnil := run_done (h.aligned p hp) hrun
  · exact hevicts.elim
  · simp only [ht, State.leavesNothing, List.all_eq_true, Bool.or_eq_true, List.any_eq_true,
      beq_iff_eq, Bool.and_eq_true, bne_iff_ne, Option.isNone_iff_eq_none] at hleft
    obtain ⟨row, hrow, heq⟩ | ⟨⟨hcache, hflight⟩, hadmin⟩ := hleft k hk
    · exact absurd heq (hdb row hrow)
    · exact ⟨hdb, hcache, fun q hq => hflight q (hprocs q hq), hadmin⟩
  · cases hnil
    cases hk

/-- **One step of a request.** -/
theorem Inv.run (h : Inv s) (hp : p ∈ s.procs) (hrun : s.toStore.run p.task = some (st, out))
    (hleft : s.leavesNothing p.task = true) : Inv (s.after i p st out) := by
  have hmem : ∀ q ∈ (s.after i p st out).procs, q ∈ s.procs ∨ ∃ t', out = .goOn t' ∧ q.task = t' :=
    fun q hq => mem_procs_after hq
  have hfree : ∀ {u r}, (u, r) ∉ s.db.roles ∧ Free (fun tok => carries u r tok = true) s.toStore s.procs →
      Free (fun tok => carries u r tok = true) st (s.after i p st out).procs ∧
        ∀ a tok, out = .answer a tok → ¬ carries u r tok = true := by
    intro u r hold
    obtain ⟨hprocs, hans⟩ := hold.2.step hp hrun (fun w keys hbad => hold.1 (carries_new hbad))
      (not_carries_admin _) fun base key now tok hok hbad => carries_restricted hok hbad
    exact ⟨hprocs _ hmem, hans⟩
  refine ⟨?_, ?_, ?_, ?_, ?_⟩
  · intro k tok hget
    rw [toStore_after] at hget
    obtain hold | ⟨-, hk⟩ := (run_effect hrun).user k tok hget
    · exact h.keyed k tok hold
    · exact hk.symm
  · intro q hq
    obtain hold | ⟨t', rfl, rfl⟩ := hmem q hq
    · exact h.aligned q hold
    · exact run_aligned h.keyed (h.aligned p hp) hrun
  · intro n u r hin
    obtain ⟨hdb, hold | rfl⟩ := mem_revoked_after hin
    · rw [toStore_after]
      exact ⟨hdb, (hfree (h.revoked n u r hold)).1⟩
    · rw [toStore_after]
      exact ⟨hdb, h.revocation hp hrun hleft hdb fun q hq => List.mem_of_mem_eraseIdx hq⟩
  · intro n k hin
    rw [toStore_after]
    obtain ⟨hdb, hold | ⟨keys, rfl, hk⟩⟩ := mem_deleted_after hin
    · exact ((h.deleted n k hold).step hp hrun hdb).1 _ hmem
    · exact h.deletion hp hrun hk hleft hdb fun q hq => List.mem_of_mem_eraseIdx hq
  · intro born key tok hlast
    cases out with
    | answer a t =>
      obtain ⟨rfl, rfl, rfl⟩ : p.born = born ∧ a = key ∧ t = tok := by
        simpa [State.after] using hlast
      refine ⟨fun n u r hin _ => ?_, fun n k hin _ => ?_⟩
      · obtain ⟨-, hold | hout⟩ := mem_revoked_after hin
        · exact Bool.eq_false_iff.mpr ((hfree (h.revoked n u r hold)).2 a t rfl)
        · cases hout
      · obtain ⟨hdb, hold | ⟨keys, hout, -⟩⟩ := mem_deleted_after hin
        · exact ((h.deleted n k hold).step hp hrun hdb).2 a t rfl
        · cases hout
    | goOn t => cases hlast
    | done d => cases hlast
    | failed => cases hlast

/-- More or fewer requests that hold nothing change nothing. -/
theorem Inv.procs (h : Inv s) {procs : List Proc} {steps now : ℕ}
    (hprocs : ∀ q ∈ procs, q ∈ s.procs ∨ (q.task.aligned ∧ q.task.token? = none ∧ q.task.apikey? = none)) :
    Inv { s with procs := procs, steps := steps, now := now, last := none } := by
  refine ⟨h.keyed, ?_, ?_, ?_, ?_⟩
  · intro q hq
    obtain hold | hnew := hprocs q hq
    · exact h.aligned q hold
    · exact hnew.1
  · intro n u r hin
    obtain ⟨hdb, hfree⟩ := h.revoked n u r hin
    refine ⟨hdb, hfree.user, hfree.key, fun q hq tok htok => ?_⟩
    obtain hold | hnew := hprocs q hq
    · exact hfree.flight q hold tok htok
    · rw [hnew.2.1] at htok
      cases htok
  · intro n k hin
    have hgone := h.deleted n k hin
    refine ⟨hgone.db, hgone.cache, fun q hq hk => ?_, hgone.admin⟩
    obtain hold | hnew := hprocs q hq
    · exact hgone.flight q hold hk
    · rw [hnew.2.2] at hk
      cases hk
  · rintro _ _ _ ⟨⟩

theorem task_start (r : Request) : r.task.aligned ∧ r.task.token? = none ∧ r.task.apikey? = none := by
  cases r with
  | getTokenByApikey k => exact ⟨trivial, rfl, rfl⟩
  | getTokenByUsername u => exact ⟨trivial, rfl, rfl⟩
  | revokeRole u b => exact ⟨trivial, rfl, rfl⟩
  | grantRole u b => exact ⟨trivial, rfl, rfl⟩
  | deleteApiKey name u => exact ⟨trivial, rfl, rfl⟩
  | createApikey key => exact ⟨trivial, rfl, rfl⟩

/-- **One input** keeps the invariant. -/
theorem Inv.next (h : Inv s) {c : Input} (hok : s.Settled c) (hnext : s.next c = some s') : Inv s' := by
  cases c with
  | start r =>
    obtain rfl := Option.some.inj hnext
    refine h.procs fun q hq => ?_
    obtain hold | hnew := List.mem_append.mp hq
    · exact .inl hold
    · rw [List.mem_singleton.mp hnew]
      exact .inr (task_start r)
  | run i =>
    simp only [State.next] at hnext
    split at hnext
    next => cases hnext
    next p hp =>
      split at hnext
      next => cases hnext
      next st out hrun =>
        obtain rfl := Option.some.inj hnext
        exact h.run (List.mem_of_getElem? hp) hrun (hok p hp)
  | drop i =>
    simp only [State.next] at hnext
    split at hnext
    next => cases hnext
    next =>
      obtain rfl := Option.some.inj hnext
      exact h.procs fun q hq => .inl (List.mem_of_mem_eraseIdx hq)
    next => cases hnext
  | clock now =>
    obtain rfl := Option.some.inj hnext
    exact h.procs fun q hq => .inl hq

theorem Inv.fresh (h : Fresh s) : Inv s := by
  obtain ⟨db, now, key, rfl⟩ := h
  refine ⟨?_, ?_, ?_, ?_, ?_⟩
  · intro k tok hget
    simp at hget
  · rintro _ ⟨⟩
  · rintro _ _ _ ⟨⟩
  · rintro _ _ ⟨⟩
  · rintro _ _ _ ⟨⟩

/-- **Revocations and deletions take effect** in every run in which each of them
leaves nothing behind when it returns: no token of a key that still carries the
role, and no look-up that is about to insert what it read before. -/
theorem revocation_effective (h : Reach State.next Fresh State.Settled s) : s.Effective :=
  (h.invariant (fun _ => Inv.fresh) fun _ _ _ hinv hok hnext => hinv.next hok hnext).effective

end Invariant

/-! ## Two runs -/

instance (s : State) : (c : Input) → Decidable (s.Settled c)
  | .run i =>
    decidable_of_iff ((s.procs[i]?.all fun p => s.leavesNothing p.task) = true) (by
      rw [Option.all_eq_true]
      rfl)
  | .start _ => .isTrue trivial
  | .drop _ => .isTrue trivial
  | .clock _ => .isTrue trivial

/-- A gateway whose database knows `ann`, a user of `acme`, and a key of hers. -/
def annsGateway : State where
  db :=
    { roles := [("ann", "/tenant/user/acme")]
      apikeys := [{ apikey := "ix_1", username := "ann", keyname := "laptop", accessLevel := "read",
                    restrictTenant := some "acme" }] }

/-- The key is used, the role is revoked, the key is deleted, and `ann` is looked up again. -/
def orderly : List Input :=
  [.start (.getTokenByApikey "ix_1"), .run 0, .run 0, .run 0, .run 0, .run 0, .run 0, .run 0,
   .start (.revokeRole "ann" (.tenantUser "acme")), .run 0, .run 0, .run 0, .run 0, .run 0,
   .start (.deleteApiKey "laptop" "ann"), .run 0, .run 0, .run 0,
   .start (.getTokenByUsername "ann"), .run 0, .run 0, .run 0, .run 0]

theorem orderly_revoked :
    (exec State.next State.Settled annsGateway orderly).map (fun s =>
      (s.revoked, s.deleted, s.last.map fun a => a.1)) =
      some ([(14, "ann", "/tenant/user/acme")], [(18, "ix_1")], some 18) := by
  decide +kernel

theorem revocation_effective_orderly : ∃ s : State, s.Effective ∧
    s.revoked = [(14, "ann", "/tenant/user/acme")] ∧ s.deleted = [(18, "ix_1")] ∧
      s.last.map (fun a => a.1) = some 18 := by
  obtain ⟨s, hs, heq⟩ := Option.map_eq_some_iff.mp orderly_revoked
  obtain ⟨hrevoked, heq⟩ := Prod.mk.inj heq
  obtain ⟨hdeleted, hlast⟩ := Prod.mk.inj heq
  have hreach : Reach State.next Fresh State.Settled s :=
    .of_exec State.next State.Settled (.init ⟨_, _, _, rfl⟩) hs
  exact ⟨s, revocation_effective hreach, hrevoked, hdeleted, hlast⟩

/-- A look-up reads the role before it is revoked, and inserts it afterwards. -/
def overtaken : List Input :=
  [.start (.getTokenByUsername "ann"), .run 0, .run 0, .run 0,
   .start (.revokeRole "ann" (.tenantUser "acme")), .run 1, .run 1, .run 1, .run 1, .run 1, .run 1,
   .run 1, .run 1, .run 0, .start (.getTokenByUsername "ann"), .run 0]

/-- The stale insert outlives the revocation: the next look-up returns the role. -/
theorem stale_insert_survives :
    ¬ ∀ s, Reach State.next Fresh (fun _ _ => True) s → s.Effective := by
  intro h
  have hrun : (exec State.next (fun _ _ => True) annsGateway overtaken).map (fun s =>
      (s.revoked, s.last.map fun a => (a.1, carries "ann" "/tenant/user/acme" a.2.2))) =
      some ([(13, "ann", "/tenant/user/acme")], some (14, true)) := by
    decide +kernel
  obtain ⟨s, hs, heq⟩ := Option.map_eq_some_iff.mp hrun
  obtain ⟨hrevoked, hlast⟩ := Prod.mk.inj heq
  obtain ⟨⟨born, key, tok⟩, hsome, hpair⟩ := Option.map_eq_some_iff.mp hlast
  obtain ⟨hborn, hcarries⟩ := Prod.mk.inj hpair
  have hreach : Reach State.next Fresh (fun _ _ => True) s :=
    .of_exec State.next _ (.init ⟨_, _, _, rfl⟩) hs
  have hclean := (h s hreach born key tok hsome).1 13 "ann" "/tenant/user/acme"
    (by rw [hrevoked]; exact List.mem_singleton_self _) (by rw [show born = 14 from hborn]; decide)
  rw [show carries _ _ tok = true from hcarries] at hclean
  cases hclean

end Inferx.Gateway.TokenCache
