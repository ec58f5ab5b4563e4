import Inferx.Billing.Backfill

/-!
# The backfill agrees with the script

`backfill_iff` says in which databases the backfill does what runs of
`update-and-check-quota.sql` would do that process all ticks: no tenant may have been
debited for tokens, no token event with a rate may wait, and who has no ticks left
has to have a current row. `backfill_drops_tokens` is a tenant whose token usage is
lost.
-/

namespace Inferx.Billing

open Carry

variable {db : Db} {tenant : String} {standby : Bool} {cutoff : ℤ}

/-! ## The two agree -/

section Agree

variable {k : ℕ}

theorem usageTotal_eq (hcut : ∀ t ∈ db.ticks, t.tickTime < cutoff) :
    usageTotal cutoff db standby tenant = tickAgg db.rates standby tenant db.ticks := by
  rw [usageTotal, List.filter_eq_self.mpr fun t ht => decide_eq_true (hcut t ht)]

/-- The ticks after the backfill are those after all runs. -/
theorem backfill_ticks (hcut : ∀ t ∈ db.ticks, t.tickTime < cutoff) :
    (backfill cutoff db).ticks = db.ticks.map (fillTick db.rates) :=
  List.map_congr_left fun t ht => backfillTick_eq_fillTick (hcut t ht)

theorem iterate_ticks (h : Booked db) (hdone : Done (updateAndCheckQuota^[k] db)) :
    (updateAndCheckQuota^[k] db).ticks = db.ticks.map (fillTick db.rates) :=
  hdone.fill.symm.trans (h.runs k).fill

/-- A row after all ticks are processed has the totals of the backfill, for ticks. -/
structure TickTotals (cutoff : ℤ) (db : Db) (tenant : String) (q : TenantQuota) : Prop where
  /-- inference -/
  inference : q.inferenceUsedCents = (usageTotal cutoff db false tenant).tdiv tickDivisor ∧
    q.inferenceCarryNumer = (usageTotal cutoff db false tenant).tmod tickDivisor
  /-- standby -/
  standby : q.standbyUsedCents = (usageTotal cutoff db true tenant).tdiv tickDivisor ∧
    q.standbyCarryNumer = (usageTotal cutoff db true tenant).tmod tickDivisor
  /-- all of it -/
  used : q.usedCents = q.inferenceUsedCents + q.standbyUsedCents + q.tokenUsedCents

theorem eq_tdiv_tmod {used carry s : ℤ} (h : Exact tickDivisor used carry s) (hs : 0 ≤ s) :
    used = s.tdiv tickDivisor ∧ carry = s.tmod tickDivisor := by
  rw [Int.tdiv_eq_ediv_of_nonneg hs, Int.tmod_eq_emod_of_nonneg hs]
  exact h.eq_div_mod

theorem iterate_totals {q : TenantQuota} (h : Booked db) (hr : RatesSame db)
    (hcut : ∀ t ∈ db.ticks, t.tickTime < cutoff) (hdone : Done (updateAndCheckQuota^[k] db))
    (hq : (updateAndCheckQuota^[k] db).quota tenant = some q) : TickTotals cutoff db tenant q := by
  have hacc := (h.runs k).booked.account tenant q hq
  have hdebits : ∀ standby, tickDebits standby tenant (updateAndCheckQuota^[k] db).ticks =
      usageTotal cutoff db standby tenant := by
    intro standby
    rw [iterate_ticks h hdone, tickDebits_fill hr, usageTotal_eq hcut]
  have hnonneg : ∀ standby, 0 ≤ usageTotal cutoff db standby tenant := by
    intro standby
    rw [usageTotal_eq hcut]
    exact tickAgg_nonneg h h.rates fun t ht => ht
  refine ⟨?_, ?_, hacc.used⟩
  · exact eq_tdiv_tmod (hdebits false ▸ hacc.inference) (hnonneg false)
  · exact eq_tdiv_tmod (hdebits true ▸ hacc.standby) (hnonneg true)

/-- The row of a tenant, or the one it is given. -/
theorem Booked.account_getD (h : Booked db) : Account db tenant ((db.quota tenant).getD {}) := by
  rcases hq : db.quota tenant with _ | q
  · exact h.account_none hq
  · exact h.account tenant q hq

/-- What is debited for tokens stays when no event is processed. -/
theorem iterate_token {q : TenantQuota} (h : Booked db) (hu : Unpriced db)
    (hq : (updateAndCheckQuota^[k] db).quota tenant = some q) :
    q.tokenUsedCents = ((db.quota tenant).getD {}).tokenUsedCents ∧
      q.tokenCarryNumer = ((db.quota tenant).getD {}).tokenCarryNumer := by
  have hnew := ((h.runs k).booked.account tenant q hq).token.eq_div_mod
  rw [(hu.iterate k).2] at hnew
  have hacc : Account db tenant ((db.quota tenant).getD {}) := h.account_getD
  have hold := hacc.token.eq_div_mod
  exact ⟨hnew.1.trans hold.1.symm, hnew.2.trans hold.2.symm⟩

/-- A current row with the totals of the ticks and nothing for tokens is the one of the backfill. -/
theorem eq_recomputed {q q₀ : TenantQuota} (ht : TickTotals cutoff db tenant q)
    (hcurrent : Current (creditsOf db.credits tenant) q) (hthreshold : q.thresholdCents = q₀.thresholdCents)
    (hused : q.tokenUsedCents = q₀.tokenUsedCents) (hcarry : q.tokenCarryNumer = q₀.tokenCarryNumer)
    (hzero : q₀.tokenUsedCents = 0) :
    q = recomputed q₀ (usageTotal cutoff db false tenant) (usageTotal cutoff db true tenant)
      (creditsOf db.credits tenant) := by
  have htotal := ht.used
  rw [hused, hzero, add_zero] at htotal
  obtain ⟨hbalance, hflag⟩ := hcurrent
  rw [htotal] at hbalance hflag
  rw [ht.inference.1, ht.standby.1] at htotal hbalance hflag
  cases q
  simp only at *
  simp only [recomputed, TenantQuota.mk.injEq]
  exact ⟨hbalance, htotal, ht.inference.1, ht.standby.1, hused, ht.inference.2, ht.standby.2, hcarry,
    hthreshold, by rw [hflag, hthreshold]⟩

theorem Db.eq_of {a b : Db} (hticks : a.ticks = b.ticks) (htokens : a.tokens = b.tokens)
    (hcredits : a.credits = b.credits) (hrates : a.rates = b.rates) (htokenRates : a.tokenRates = b.tokenRates)
    (hquota : a.quota = b.quota) : a = b := by
  cases a
  cases b
  simp_all

theorem backfillTarget_iff (hcut : ∀ t ∈ db.ticks, t.tickTime < cutoff) :
    backfillTarget cutoff db tenant = true ↔ (db.quota tenant).isSome = true ∨
      (∃ c ∈ db.credits, c.tenant = tenant) ∨ ∃ t ∈ db.ticks, t.tenant = tenant := by
  simp only [backfillTarget, Bool.or_eq_true, List.any_eq_true, Bool.and_eq_true, beq_iff_eq,
    decide_eq_true_eq, or_assoc]
  refine or_congr_right (or_congr_right ⟨?_, ?_⟩)
  · rintro ⟨t, ht, -, htenant⟩
    exact ⟨t, ht, htenant⟩
  · rintro ⟨t, ht, htenant⟩
    exact ⟨t, ht, hcut t ht, htenant⟩

/-- The backfill has rows for those whom the script has rows for. -/
theorem Backfillable.target (hf : Backfillable db) (h : Booked db)
    (hcut : ∀ t ∈ db.ticks, t.tickTime < cutoff) :
    backfillTarget cutoff db tenant = true ↔
      (db.quota tenant).isSome = true ∨ known db tenant = true := by
  rw [backfillTarget_iff hcut]
  constructor
  · rintro (hsome | hcredit | ⟨t, ht, rfl⟩)
    · exact .inl hsome
    · exact .inr (known_iff.mpr (.inr (.inl hcredit)))
    · by_cases hnew : t.processed = none
      · exact .inr (known_iff.mpr (.inl ⟨t, ht, hnew, rfl⟩))
      · exact .inl (h.tickTenant t ht hnew)
  · rintro (hsome | hknown)
    · exact .inl hsome
    · rcases hf.opened tenant hknown with hsome | ⟨t, ht, -, htenant⟩
      · exact .inl hsome
      · exact .inr (.inr ⟨t, ht, htenant⟩)

theorem backfill_quota (htarget : backfillTarget cutoff db tenant = true) :
    (backfill cutoff db).quota tenant =
      some (recomputed ((db.quota tenant).getD {}) (usageTotal cutoff db false tenant)
        (usageTotal cutoff db true tenant) (creditsOf db.credits tenant)) := if_pos htarget

/-- Nothing has been debited for tokens, with or without a row. -/
theorem Backfillable.spent_getD (hf : Backfillable db) : ((db.quota tenant).getD {}).tokenUsedCents = 0 := by
  rcases hq : db.quota tenant with _ | q
  · rfl
  · exact hf.spent tenant q hq

/-- A row after all ticks are processed is current. -/
theorem Backfillable.iterate_current (hf : Backfillable db) (h : Booked db) {q : TenantQuota}
    (hdone : Done (updateAndCheckQuota^[k] db)) (hq : (updateAndCheckQuota^[k] db).quota tenant = some q) :
    Current (creditsOf db.credits tenant) q := by
  by_cases hw : Waits db tenant
  · exact Billing.iterate_current h hf.tokens hw hdone hq
  · have hsome : (db.quota tenant).isSome = true := by
      rcases isSome_of_iterate hf.tokens (by rw [hq]; rfl) with hsome | hknown
      · exact hsome
      · exact (hf.opened tenant hknown).resolve_right hw
    obtain ⟨q₀, hq₀⟩ := Option.isSome_iff_exists.mp hsome
    rw [iterate_idle hf.tokens hw hq₀] at hq
    obtain rfl := Option.some.inj hq
    exact (hf.current tenant _ hq₀).resolve_left hw

/-- **Enough.** The backfill does what the script leads to. -/
theorem Backfillable.incremental (hf : Backfillable db) (h : Booked db) (hr : RatesSame db)
    (hcut : ∀ t ∈ db.ticks, t.tickTime < cutoff) (hk : 0 < k) (hdone : Done (updateAndCheckQuota^[k] db)) :
    backfill cutoff db = updateAndCheckQuota^[k] db := by
  have hquota : (backfill cutoff db).quota = (updateAndCheckQuota^[k] db).quota := by
    funext tenant
    rcases hq : (updateAndCheckQuota^[k] db).quota tenant with _ | q
    · have hno : ¬ backfillTarget cutoff db tenant = true := by
        rw [hf.target h hcut, ← isSome_iterate_iff hf.tokens hk, hq]
        simp
      rw [show (backfill cutoff db).quota tenant = db.quota tenant from if_neg hno]
      exact iterate_none hq
    · have htarget : backfillTarget cutoff db tenant = true := by
        rw [hf.target h hcut, ← isSome_iterate_iff hf.tokens hk, hq]
        rfl
      obtain ⟨hused, hcarry⟩ := iterate_token h hf.tokens hq
      rw [backfill_quota htarget, eq_recomputed (iterate_totals h hr hcut hdone hq)
        (hf.iterate_current h hdone hq) (iterate_threshold hq) hused hcarry hf.spent_getD]
  have hruns := h.runs k
  exact Db.eq_of ((backfill_ticks hcut).trans (iterate_ticks h hdone).symm) (hf.tokens.iterate k).2.symm
    hruns.credits.symm hruns.rates.symm hruns.tokenRates.symm hquota

/-! ## The verification, and once more -/

/-- A row of the backfill has no mismatch if nothing was debited for tokens. -/
theorem mismatch_recomputed {q : TenantQuota} {inference standby credits : ℤ} (hi : 0 ≤ inference)
    (hs : 0 ≤ standby) (hzero : q.tokenUsedCents = 0) :
    mismatch (recomputed q inference standby credits) inference standby credits = false := by
  have hd : 0 < tickDivisor := by decide
  have hi₀ := Int.tmod_nonneg tickDivisor hi
  have hi₁ := Int.tmod_lt_of_pos inference hd
  have hs₀ := Int.tmod_nonneg tickDivisor hs
  have hs₁ := Int.tmod_lt_of_pos standby hd
  simp [mismatch, recomputed, hzero, not_lt.mpr hi₀, not_lt.mpr hs₀, not_le.mpr hi₁, not_le.mpr hs₁]

/-- What the ticks amount to does not depend on the marks. -/
theorem usageTotal_backfill : usageTotal cutoff (backfill cutoff db) standby tenant =
    usageTotal cutoff db standby tenant := by
  have hmark : ∀ t : UsageTick, (backfillTick cutoff db.rates t).tickTime = t.tickTime ∧
      (backfillTick cutoff db.rates t).tenant = t.tenant ∧
      (backfillTick cutoff db.rates t).usageType = t.usageType ∧
      (backfillTick cutoff db.rates t).numer ((backfillTick cutoff db.rates t).rate db.rates) =
        t.numer (t.rate db.rates) := by
    intro t
    unfold backfillTick
    split
    next => exact ⟨rfl, rfl, rfl, rfl⟩
    next => exact ⟨rfl, rfl, rfl, rfl⟩
  unfold usageTotal tickAgg
  rw [sum_map_filter, sum_map_filter, sum_map_filter, sum_map_filter]
  simp only [backfill, List.map_map]
  refine congrArg List.sum (List.map_congr_left fun t _ => ?_)
  obtain ⟨htime, htenant, htype, hnumer⟩ := hmark t
  simp only [Function.comp_apply, htime, htenant, htype, hnumer]

theorem backfillTick_backfillTick {rates : List BillingRate} (t : UsageTick) :
    backfillTick cutoff rates (backfillTick cutoff rates t) = backfillTick cutoff rates t := by
  by_cases hmark : (t.processed.isNone && decide (t.tickTime < cutoff)) = true
  · simp [backfillTick, hmark]
  · simp [backfillTick, hmark]

theorem backfillTarget_backfill :
    backfillTarget cutoff (backfill cutoff db) tenant = backfillTarget cutoff db tenant := by
  by_cases htarget : backfillTarget cutoff db tenant = true
  · rw [htarget, backfillTarget, backfill_quota htarget]
    rfl
  · have hquota : (backfill cutoff db).quota tenant = db.quota tenant := if_neg htarget
    rw [backfillTarget, hquota, backfillTarget]
    congr 1
    simp only [backfill, List.any_map]
    congr 1
    funext t
    simp only [Function.comp_apply, backfillTick]
    split
    next => rfl
    next => rfl

/-- The backfill changes nothing more when it is done again. -/
theorem backfill_backfill : backfill cutoff (backfill cutoff db) = backfill cutoff db := by
  refine Db.eq_of ?_ rfl rfl rfl rfl (funext fun tenant => ?_)
  · simp only [backfill, List.map_map]
    exact List.map_congr_left fun t _ => backfillTick_backfillTick t
  · by_cases htarget : backfillTarget cutoff db tenant = true
    · rw [backfill_quota (backfillTarget_backfill.trans htarget), usageTotal_backfill, usageTotal_backfill,
        backfill_quota htarget]
      rfl
    · rw [show (backfill cutoff (backfill cutoff db)).quota tenant = (backfill cutoff db).quota tenant from
        if_neg fun h => htarget (backfillTarget_backfill.symm.trans h)]

theorem Backfillable.verified (hf : Backfillable db) (h : Booked db)
    (hcut : ∀ t ∈ db.ticks, t.tickTime < cutoff) : Verified cutoff (backfill cutoff db) := by
  intro tenant q hq
  have hnonneg : ∀ standby, 0 ≤ usageTotal cutoff db standby tenant := by
    intro standby
    rw [usageTotal_eq hcut]
    exact tickAgg_nonneg h h.rates fun t ht => ht
  rw [usageTotal_backfill, usageTotal_backfill]
  by_cases htarget : backfillTarget cutoff db tenant = true
  · rw [backfill_quota htarget] at hq
    obtain rfl := Option.some.inj hq
    exact mismatch_recomputed (hnonneg false) (hnonneg true) hf.spent_getD
  · rw [show (backfill cutoff db).quota tenant = db.quota tenant from if_neg htarget] at hq
    exact absurd ((backfillTarget_iff hcut).mpr (.inl (by rw [hq]; rfl))) htarget

/-! ## Nothing less is enough -/

/-- A token event that is processed stays. -/
theorem mem_tokens_iterate (h : Booked db) {e : TokenEvent} (he : e ∈ db.tokens) (hproc : e.processed ≠ none) :
    e ∈ (updateAndCheckQuota^[k] db).tokens := by
  induction k generalizing db with
  | zero => exact he
  | succ k ih =>
    rw [Function.iterate_succ_apply]
    refine ih h.updated (List.mem_map.mpr ⟨e, he, ?_⟩)
    rcases markToken_cases h.insertTenants batches_run he with heq | ⟨hmem, -⟩
    · exact heq
    · exact absurd (tokenBatch_new hmem).2.1 hproc

/-- A token event with a rate is processed by a run, and not by the backfill. -/
theorem unpriced_of_tokens (h : Booked db) (hk : 0 < k)
    (htokens : (updateAndCheckQuota^[k] db).tokens = db.tokens) : Unpriced db := by
  intro e he hnew
  by_contra hrate
  obtain ⟨e', he'⟩ : ∃ e', e' ∈ tokenBatch db :=
    exists_mem_pick he (by rw [hnew]; simpa [Option.isSome_iff_ne_none] using hrate)
  obtain ⟨hmem, hnew', hrate'⟩ := tokenBatch_new he'
  obtain ⟨r, hr⟩ := Option.isSome_iff_exists.mp hrate'
  obtain ⟨k, rfl⟩ := Nat.exists_eq_succ_of_ne_zero hk.ne'
  rw [Function.iterate_succ_apply] at htokens
  have hmarked : { e' with processed := some r } ∈ (updateAndCheckQuota db).tokens := by
    refine List.mem_map.mpr ⟨e', hmem, ?_⟩
    have hids : e'.gatewayRequestId ∈ (tokenBatch (insertTenants db)).map TokenEvent.gatewayRequestId :=
      List.mem_map_of_mem he'
    rw [markToken, if_pos hids]
    exact congrArg (fun x => { e' with processed := x }) hr
  have hstays : { e' with processed := some r } ∈ db.tokens :=
    htokens ▸ mem_tokens_iterate h.updated hmarked (by simp)
  have hsame : { e' with processed := some r } = e' := List.inj_on_of_nodup_map h.tokenIds hstays hmem rfl
  rw [← hsame] at hnew'
  cases hnew'

theorem current_recomputed (q : TenantQuota) (inference standby credits : ℤ) :
    Current credits (recomputed q inference standby credits) := ⟨rfl, rfl⟩

/-- **Necessary.** Where the two agree, the database could be backfilled. -/
theorem Agrees.backfillable (ha : Agrees cutoff db) (h : Booked db) (hr : RatesSame db)
    (hcut : ∀ t ∈ db.ticks, t.tickTime < cutoff) : Backfillable db := by
  obtain ⟨k, hk, hdone⟩ := exists_done h
  have heq := ha.incremental k hk hdone
  have hu : Unpriced db := unpriced_of_tokens h hk (congrArg Db.tokens heq).symm
  have hrow : ∀ tenant q, db.quota tenant = some q → (updateAndCheckQuota^[k] db).quota tenant =
      some (recomputed q (usageTotal cutoff db false tenant) (usageTotal cutoff db true tenant)
        (creditsOf db.credits tenant)) := by
    intro tenant q hq
    rw [← heq, backfill_quota ((backfillTarget_iff hcut).mpr (.inl (by rw [hq]; rfl))), hq]
    rfl
  refine ⟨?_, hu, ?_, ?_⟩
  · intro tenant q hq
    have htotals := iterate_totals h hr hcut hdone (hrow tenant q hq)
    have hused := htotals.used
    simp only [recomputed] at hused
    omega
  · intro tenant q hq
    by_cases hw : Waits db tenant
    · exact .inl hw
    · -- the script does not touch the row, so it is the one of the backfill
      have hsame := hrow tenant q hq
      rw [iterate_idle hu hw hq] at hsame
      rw [Option.some.inj hsame]
      exact .inr (current_recomputed _ _ _ _)
  · intro tenant hknown
    by_contra hnot
    obtain ⟨hno, hw⟩ := not_or.mp hnot
    have hnone : db.quota tenant = none := by simpa using hno
    have hnew : (updateAndCheckQuota db).quota tenant = some {} := by
      rw [run_idle hu hw]
      simp [insertTenants, hknown, hnone]
    have hstays : (updateAndCheckQuota^[k] db).quota tenant = some {} := by
      obtain ⟨k, rfl⟩ := Nat.exists_eq_succ_of_ne_zero hk.ne'
      rw [Function.iterate_succ_apply]
      exact iterate_idle hu.run (fun hlater => hw hlater.of_run) hnew
    rw [← heq] at hstays
    by_cases htarget : backfillTarget cutoff db tenant = true
    · -- a new row is stopped only once it is computed: the flag and the balance contradict each other
      rw [backfill_quota htarget, hnone] at hstays
      have hcurrent := current_recomputed {} (usageTotal cutoff db false tenant)
        (usageTotal cutoff db true tenant) (creditsOf db.credits tenant)
      rw [Option.getD_none] at hstays
      rw [Option.some.inj hstays] at hcurrent
      obtain ⟨hbalance, hflag⟩ := hcurrent
      have hcredits : creditsOf db.credits tenant = 0 := by simpa using hbalance.symm
      rw [hcredits] at hflag
      cases hflag
    · rw [show (backfill cutoff db).quota tenant = db.quota tenant from if_neg htarget, hnone] at hstays
      cases hstays

end Agree

/-! ## Histories agree -/

/-- One change keeps the books, and the rates of processed ticks. -/
theorem booked_step {db' : Db} {c : Change} (h : Booked db ∧ RatesSame db) (hok : ChangeOk db c)
    (hstep : db.step c = some db') : Booked db' ∧ RatesSame db' := by
  cases c with
  | recalculate tenant =>
    obtain rfl := Option.some.inj hstep
    exact ⟨h.1.recalculate, h.2⟩
  | op o =>
    refine ⟨h.1.next hok.1 hstep, ?_⟩
    cases o with
    | tick t =>
      obtain rfl := Option.some.inj hstep
      intro t' ht' x hx
      rcases List.mem_append.mp ht' with hold | hone
      · exact h.2 t' hold x hx
      · rw [List.mem_singleton.mp hone] at hx
        cases hx
    | token e =>
      simp only [Db.step, Db.next] at hstep
      split at hstep
      next =>
        obtain rfl := Option.some.inj hstep
        exact h.2
      next =>
        obtain rfl := Option.some.inj hstep
        exact h.2
    | credit c =>
      obtain rfl := Option.some.inj hstep
      unfold addTenantCredit
      split
      next => exact h.2
      next => exact h.2
    | rate r =>
      obtain rfl := Option.some.inj hstep
      intro t ht x hx
      have hkept := hok.2 r rfl t ht (by rw [hx]; simp)
      exact hkept.trans (h.2 t ht x hx)
    | tokenRate r =>
      obtain rfl := Option.some.inj hstep
      exact h.2
    | run =>
      obtain rfl := Option.some.inj hstep
      exact h.2.updated

/-- **Backfill and incremental billing.** In every database that a history leads to, and
for every cutoff after all its ticks, the backfill does what the script would do, is
verified, and can be repeated, exactly if no tenant has been debited for tokens, no
token event with a rate is left, and who has no ticks left has a current row. -/
theorem backfill_iff (h : Reach Db.step NewDb ChangeOk db) (hcut : ∀ t ∈ db.ticks, t.tickTime < cutoff) :
    Agrees cutoff db ↔ Backfillable db := by
  obtain ⟨hb, hr⟩ : Booked db ∧ RatesSame db := by
    refine h.invariant (I := fun db => Booked db ∧ RatesSame db) (fun db hnew => ⟨hnew.booked, ?_⟩)
      fun _ _ _ hs hok hstep => booked_step hs hok hstep
    intro t ht
    rw [hnew.ticks] at ht
    cases ht
  refine ⟨fun ha => ha.backfillable hb hr hcut, fun hf => ⟨?_, hf.verified hb hcut, backfill_backfill⟩⟩
  exact fun k hk hdone => hf.incremental hb hr hcut hk hdone

namespace Sample

/-- A minute that is not processed. -/
def waiting : Db := { priced with ticks := [minute] }

theorem reach_waiting : Reach Db.step NewDb ChangeOk waiting :=
  .step (c := .op (.tick minute)) (.init newDb_priced)
    ⟨⟨by decide, by decide⟩, fun r hr => by cases hr⟩ rfl

/-- Tokens at a cent for a million. -/
def tokenPriced : Db :=
  { tokenRates := [{ input := 1000000, output := 1000000, effectiveFrom := 0 }] }

/-- A prompt of a million tokens. -/
def million : TokenEvent :=
  { gatewayRequestId := "r1", callerTenant := "t", modelSlug := "m", promptTokens := 1000000
    completionTokens := 0, cachedTokens := 0, ts := 10 }

/-- It is billed. -/
def billed : Db := updateAndCheckQuota { tokenPriced with tokens := [million] }

theorem newDb_tokenPriced : NewDb tokenPriced := by
  refine ⟨rfl, rfl, ⟨fun r hr => ?_, fun r hr => ?_⟩, fun tenant q hq => by cases hq⟩
  · cases hr
  · rw [List.mem_singleton.mp hr]
    decide

theorem reach_billed : Reach Db.step NewDb ChangeOk billed := by
  have htoken : Reach Db.step NewDb ChangeOk { tokenPriced with tokens := [million] } :=
    .step (c := .op (.token million)) (.init newDb_tokenPriced)
      ⟨⟨by decide, by decide, by decide⟩, fun r hr => by cases hr⟩ rfl
  exact .step (c := .op .run) htoken ⟨trivial, fun r hr => by cases hr⟩ rfl

end Sample

/-- A minute that waits may be backfilled. -/
theorem backfill_iff_minute : Waits Sample.waiting "t" ∧ Agrees 100 Sample.waiting := by
  have hwaits : Waits Sample.waiting "t" := ⟨Sample.minute, List.mem_singleton_self _, rfl, rfl⟩
  refine ⟨hwaits, (backfill_iff Sample.reach_waiting ?_).mpr ⟨?_, ?_, ?_, ?_⟩⟩
  · intro t ht
    rw [List.mem_singleton.mp ht]
    decide
  · rintro _ _ ⟨⟩
  · rintro _ ⟨⟩
  · rintro _ _ ⟨⟩
  · intro tenant hknown
    obtain ⟨t, ht, hnew, htenant⟩ | ⟨c, hc, -⟩ | ⟨e, he, -⟩ := known_iff.mp hknown
    · exact .inr ⟨t, ht, hnew, htenant⟩
    · cases hc
    · cases he

/-- The cent for a million tokens is lost by a backfill, and the verification says so. -/
theorem backfill_drops_tokens :
    ¬ ∀ db cutoff, Reach Db.step NewDb ChangeOk db → (∀ t ∈ db.ticks, t.tickTime < cutoff) →
      Agrees cutoff db := by
  intro h
  have hverified := (h Sample.billed 100 Sample.reach_billed (by rintro _ ⟨⟩)).verified "t"
  have hbad : ((backfill 100 Sample.billed).quota "t").map (fun q =>
      (q.usedCents, q.tokenUsedCents, mismatch q 0 0 0)) = some (0, 1, true) := by
    decide +kernel
  obtain ⟨q, hq, heq⟩ := Option.map_eq_some_iff.mp hbad
  have hfalse := hverified q hq
  obtain ⟨-, heq⟩ := Prod.mk.inj heq
  obtain ⟨-, heq⟩ := Prod.mk.inj heq
  rw [show usageTotal 100 (backfill 100 Sample.billed) false "t" = 0 from rfl,
    show usageTotal 100 (backfill 100 Sample.billed) true "t" = 0 from rfl,
    show creditsOf (backfill 100 Sample.billed).credits "t" = 0 from rfl, heq] at hfalse
  cases hfalse

end Inferx.Billing
