import Mathlib.Logic.Function.Iterate
import Inferx.Billing.Workers

/-!
# Backfill and incremental billing

`backfill-tenant-quota-carry.sql` computes the totals of all tenants from all ticks
before a cutoff, and `verify-tenant-quota-carry.sql` compares the two.
`update-and-check-quota.sql` gets there batch by batch, and only for the tenants of
its batches. The backfill knows ticks and credits but no tokens: what a tenant has
been debited for them is left out of `used_cents`, and so of the balance.

The runs of the script are looked at here as the backfill needs them: whose rows
they touch, that they fill in the ticks, and that enough of them process all.
-/

namespace Inferx.Billing

open Carry

variable {db : Db} {tenant : String} {standby : Bool} {cutoff : ℤ}

/-! ## The scripts -/

/-- `usage_totals`: what the ticks of a tenant before the cutoff amount to. -/
def usageTotal (cutoff : ℤ) (db : Db) (standby : Bool) (tenant : String) : ℤ :=
  tickAgg db.rates standby tenant (db.ticks.filter fun t => decide (t.tickTime < cutoff))

/-- `target_tenants`. -/
def backfillTarget (cutoff : ℤ) (db : Db) (tenant : String) : Bool :=
  (db.quota tenant).isSome || db.credits.any (fun c => c.tenant == tenant) ||
    db.ticks.any fun t => decide (t.tickTime < cutoff) && t.tenant == tenant

/-- `recomputed` and `updated`: usage by inference and by standby, from all ticks. -/
def recomputed (q : TenantQuota) (inference standby credits : ℤ) : TenantQuota :=
  let used := inference.tdiv tickDivisor + standby.tdiv tickDivisor
  { q with
    inferenceUsedCents := inference.tdiv tickDivisor
    standbyUsedCents := standby.tdiv tickDivisor
    usedCents := used
    inferenceCarryNumer := inference.tmod tickDivisor
    standbyCarryNumer := standby.tmod tickDivisor
    balanceCents := credits - used
    quotaExceeded := decide (credits - used ≤ q.thresholdCents) }

/-- `mark_processed` of the backfill. -/
def backfillTick (cutoff : ℤ) (rates : List BillingRate) (t : UsageTick) : UsageTick :=
  if t.processed.isNone && decide (t.tickTime < cutoff) then { t with processed := some (t.rate rates) } else t

/-- `backfill-tenant-quota-carry.sql`. -/
def backfill (cutoff : ℤ) (db : Db) : Db :=
  { db with
    quota := fun tenant =>
      if backfillTarget cutoff db tenant then
        some (recomputed ((db.quota tenant).getD {}) (usageTotal cutoff db false tenant)
          (usageTotal cutoff db true tenant) (creditsOf db.credits tenant))
      else db.quota tenant
    ticks := db.ticks.map (backfillTick cutoff db.rates) }

/-- What `verify-tenant-quota-carry.sql` finds wrong with a row. -/
def mismatch (q : TenantQuota) (inference standby credits : ℤ) : Bool :=
  let used := inference.tdiv tickDivisor + standby.tdiv tickDivisor + q.tokenUsedCents
  -- split_mismatch
  decide (q.usedCents ≠ q.inferenceUsedCents + q.standbyUsedCents + q.tokenUsedCents) ||
  -- carry_range_mismatch
  decide (q.inferenceCarryNumer < 0 ∨ tickDivisor ≤ q.inferenceCarryNumer ∨ q.standbyCarryNumer < 0 ∨
    tickDivisor ≤ q.standbyCarryNumer) ||
  -- exact_usage_mismatch
  decide (q.inferenceUsedCents ≠ inference.tdiv tickDivisor ∨ q.standbyUsedCents ≠ standby.tdiv tickDivisor ∨
    q.inferenceCarryNumer ≠ inference.tmod tickDivisor ∨ q.standbyCarryNumer ≠ standby.tmod tickDivisor) ||
  -- balance_mismatch
  decide (q.balanceCents ≠ credits - used) ||
  -- quota_exceeded_mismatch
  decide (q.quotaExceeded ≠ decide (credits - used ≤ q.thresholdCents))

/-- `verify-tenant-quota-carry.sql` passes. -/
def Verified (cutoff : ℤ) (db : Db) : Prop :=
  ∀ tenant q, db.quota tenant = some q →
    mismatch q (usageTotal cutoff db false tenant) (usageTotal cutoff db true tenant)
      (creditsOf db.credits tenant) = false

/-! ## Histories -/

/-- What happens to the database, one after the other. -/
inductive Change where
  /-- a row is inserted, or the script runs -/
  | op (o : Op)
  /-- `RecalculateTenantQuota` -/
  | recalculate (tenant : String)

/-- One of these. -/
def Db.step (db : Db) : Change → Option Db
  | .op o => db.next o
  | .recalculate tenant => some (recalculateTenantQuota db tenant)

/-- Nothing is negative, and no rate is added that changes the rate of a tick that has been
processed. -/
def ChangeOk (db : Db) : Change → Prop
  | .op o => OpNonneg o ∧
    ∀ r, o = .rate r → ∀ t ∈ db.ticks, t.processed ≠ none → t.rate (db.rates ++ [r]) = t.rate db.rates
  | .recalculate _ => True

/-! ## What is to hold, and when it does -/

/-- No tick is left to process. -/
def Done (db : Db) : Prop := ∀ t ∈ db.ticks, t.processed ≠ none

/-- **The backfill agrees**: it does what runs of the script do that process all ticks,
it is verified, and doing it again changes nothing. -/
structure Agrees (cutoff : ℤ) (db : Db) : Prop where
  /-- what the script leads to -/
  incremental : ∀ k, 0 < k → Done (updateAndCheckQuota^[k] db) →
    backfill cutoff db = updateAndCheckQuota^[k] db
  /-- the totals are verified -/
  verified : Verified cutoff (backfill cutoff db)
  /-- once more -/
  again : backfill cutoff (backfill cutoff db) = backfill cutoff db

/-- A tenant has ticks that are not processed. -/
def Waits (db : Db) (tenant : String) : Prop := ∃ t ∈ db.ticks, t.processed = none ∧ t.tenant = tenant

/-- The balance and the flag are those of the credits and the usage. -/
def Current (credits : ℤ) (q : TenantQuota) : Prop :=
  q.balanceCents = credits - q.usedCents ∧ q.quotaExceeded = decide (credits - q.usedCents ≤ q.thresholdCents)

/-- No token event is left to process, but those without a rate. -/
def Unpriced (db : Db) : Prop := ∀ e ∈ db.tokens, e.processed = none → e.rate db.tokenRates = none

/-- The databases that may be backfilled. -/
structure Backfillable (db : Db) : Prop where
  /-- no tenant has been debited a cent for tokens -/
  spent : ∀ tenant q, db.quota tenant = some q → q.tokenUsedCents = 0
  /-- no token event is left to process, but those without a rate -/
  tokens : Unpriced db
  /-- who has no ticks left has a current row -/
  current : ∀ tenant q, db.quota tenant = some q → Waits db tenant ∨ Current (creditsOf db.credits tenant) q
  /-- and whom the script adds has ticks left -/
  opened : ∀ tenant, known db tenant = true → (db.quota tenant).isSome = true ∨ Waits db tenant

/-! ## Filling in the ticks -/

/-- A tick with its rate, as if it were processed now. -/
def fillTick (rates : List BillingRate) (t : UsageTick) : UsageTick :=
  if t.processed.isNone then { t with processed := some (t.rate rates) } else t

section Fill

variable {rates : List BillingRate} {ids : List ℕ} {t : UsageTick}

theorem fillTick_of_processed (h : t.processed ≠ none) : fillTick rates t = t := by
  unfold fillTick
  rw [if_neg (by simpa [Option.isNone_iff_eq_none] using h)]

/-- A tick that is marked while it is not processed is filled in the same way. -/
theorem fillTick_markTick (h : t.id ∈ ids → t.processed = none) :
    fillTick rates (markTick rates ids t) = fillTick rates t := by
  unfold markTick
  split
  next hmem =>
    have hnew := h hmem
    simp [fillTick, hnew]
  next => rfl

theorem backfillTick_eq_fillTick (h : t.tickTime < cutoff) :
    backfillTick cutoff rates t = fillTick rates t := by
  simp [backfillTick, fillTick, h]

theorem Done.fill (h : Done db) : db.ticks.map (fillTick rates) = db.ticks := by
  conv_rhs => rw [← List.map_id db.ticks]
  exact List.map_congr_left fun t ht => fillTick_of_processed (h t ht)

/-- The rates of processed ticks are those they have. -/
def RatesSame (db : Db) : Prop := ∀ t ∈ db.ticks, ∀ x, t.processed = some x → t.rate db.rates = x

/-- The debits of ticks that are filled in are what the ticks amount to. -/
theorem tickDebits_fill (h : RatesSame db) :
    tickDebits standby tenant (db.ticks.map (fillTick db.rates)) = tickAgg db.rates standby tenant db.ticks := by
  unfold tickDebits tickAgg
  rw [sum_map_filter, List.map_map]
  refine congrArg List.sum (List.map_congr_left fun t ht => ?_)
  have hdebit : (fillTick db.rates t).debit standby tenant =
      if t.tenant = tenant ∧ decide (t.usageType = .standby) = standby then t.numer (t.rate db.rates) else 0 := by
    rcases hproc : t.processed with _ | x
    · simp only [fillTick, hproc, Option.isNone_none, if_true]
      rfl
    · rw [fillTick_of_processed (by rw [hproc]; simp), UsageTick.debit, hproc]
      rw [← h t ht x hproc]
  rw [Function.comp_apply, hdebit]
  by_cases htenant : t.tenant = tenant
  · simp [htenant]
  · simp [htenant]

end Fill

/-! ## One run -/

section Run

theorem run_ticks : (updateAndCheckQuota db).ticks =
    db.ticks.map (markTick db.rates ((tickBatch db).map UsageTick.id)) := rfl

theorem tokenBatch_nil (h : Unpriced db) : tokenBatch db = [] := by
  refine List.eq_nil_iff_forall_not_mem.mpr fun e he => ?_
  obtain ⟨hmem, hnew, hrate⟩ := tokenBatch_new he
  rw [h e hmem hnew] at hrate
  cases hrate

theorem run_tokens (h : Unpriced db) : (updateAndCheckQuota db).tokens = db.tokens := by
  have hu : Unpriced (insertTenants db) := h
  have hnil : tokenBatch (insertTenants db) = [] := tokenBatch_nil hu
  simp only [updateAndCheckQuota, settle, book, hnil, List.map_nil]
  conv_rhs => rw [← List.map_id db.tokens]
  refine List.map_congr_left fun e _ => ?_
  simp [markToken]

theorem Unpriced.run (h : Unpriced db) : Unpriced (updateAndCheckQuota db) := by
  intro e he
  rw [run_tokens h] at he
  exact h e he

/-- A run fills in some of the ticks. -/
theorem run_fill (h : Booked db) :
    (updateAndCheckQuota db).ticks.map (fillTick db.rates) = db.ticks.map (fillTick db.rates) := by
  rw [run_ticks, List.map_map]
  refine List.map_congr_left fun t ht => fillTick_markTick fun hmem => ?_
  exact (tickBatch_new ((mem_batch_iff h.tickIds pick_subperm ht).mp hmem)).2

/-- What is not processed after a run is as it was. -/
theorem mem_of_run {t : UsageTick} (h : t ∈ (updateAndCheckQuota db).ticks) (hnew : t.processed = none) :
    t ∈ db.ticks ∧ t.id ∉ (tickBatch db).map UsageTick.id := by
  obtain ⟨t', ht', rfl⟩ := mem_book_ticks h
  unfold markTick at hnew ⊢
  split at hnew
  next => cases hnew
  next hout =>
    rw [if_neg hout]
    exact ⟨ht', hout⟩

theorem Waits.of_run (h : Waits (updateAndCheckQuota db) tenant) : Waits db tenant := by
  obtain ⟨t, ht, hnew, htenant⟩ := h
  exact ⟨t, (mem_of_run ht hnew).1, hnew, htenant⟩

theorem known_iff : known db tenant = true ↔
    Waits db tenant ∨ (∃ c ∈ db.credits, c.tenant = tenant) ∨
      ∃ e ∈ db.tokens, e.processed = none ∧ e.callerTenant = tenant := by
  simp only [known, Waits, Bool.or_eq_true, List.any_eq_true, Bool.and_eq_true, beq_iff_eq,
    Option.isNone_iff_eq_none, or_assoc]

theorem known_of_run (hu : Unpriced db) (h : known (updateAndCheckQuota db) tenant = true) :
    known db tenant = true := by
  rw [known_iff, run_tokens hu] at h
  rw [known_iff]
  exact h.imp_left Waits.of_run

theorem quota_insertTenants_of_some {q : TenantQuota} (h : db.quota tenant = some q) :
    (insertTenants db).quota tenant = some q := by
  simp [insertTenants, h]

/-- The row of a tenant after a run: touched, and then current, or as it was. -/
theorem run_quota {q' : TenantQuota} (h : (updateAndCheckQuota db).quota tenant = some q') :
    ∃ q, (insertTenants db).quota tenant = some q ∧ q'.thresholdCents = q.thresholdCents ∧
      (Current (creditsOf db.credits tenant) q' ∨
        affected (tickBatch db) (tokenBatch db) tenant = false ∧ q' = q) := by
  obtain ⟨q, hq, hcalc⟩ := Option.map_eq_some_iff.mp h
  refine ⟨q, hq, ?_⟩
  split at hcalc
  next =>
    subst hcalc
    exact ⟨rfl, .inl ⟨rfl, rfl⟩⟩
  next hfree =>
    subst hcalc
    exact ⟨rfl, .inr ⟨Bool.eq_false_iff.mpr hfree, rfl⟩⟩

theorem run_quota_isSome :
    ((updateAndCheckQuota db).quota tenant).isSome = ((insertTenants db).quota tenant).isSome :=
  Option.isSome_map

/-- A tenant without ticks is not touched. -/
theorem not_affected (hu : Unpriced db) (hw : ¬ Waits db tenant) :
    affected (tickBatch db) (tokenBatch db) tenant = false := by
  rw [tokenBatch_nil hu, affected, Bool.or_eq_false_iff]
  refine ⟨List.any_eq_false.mpr fun t ht heq => ?_, rfl⟩
  obtain ⟨hmem, hnew⟩ := tickBatch_new ht
  exact hw ⟨t, hmem, hnew, beq_iff_eq.mp heq⟩

theorem run_idle (hu : Unpriced db) (hw : ¬ Waits db tenant) :
    (updateAndCheckQuota db).quota tenant = (insertTenants db).quota tenant := by
  have hfree := not_affected hu hw
  have hrun : (updateAndCheckQuota db).quota tenant =
      ((insertTenants db).quota tenant).map fun q =>
        if affected (tickBatch db) (tokenBatch db) tenant then
          calcQuota q (tickAgg db.rates false tenant (tickBatch db)) (tickAgg db.rates true tenant (tickBatch db))
            (tokenAgg db.tokenRates tenant (tokenBatch db)) (creditsOf db.credits tenant)
        else q := rfl
  rw [hrun, hfree]
  simp

theorem Booked.updated (h : Booked db) : Booked (updateAndCheckQuota db) :=
  h.insertTenants.settle batches_run

theorem RatesSame.updated (h : RatesSame db) : RatesSame (updateAndCheckQuota db) := by
  intro t' ht' x hx
  obtain ⟨t, ht, rfl⟩ := mem_book_ticks ht'
  unfold markTick at hx ⊢
  split at hx
  next hmem =>
    rw [if_pos hmem]
    exact Option.some.inj hx
  next hout =>
    rw [if_neg hout]
    exact h t ht x hx

end Run

/-! ## Runs -/

section Runs

variable {k : ℕ}

/-- What all runs have in common. -/
structure Runs (db : Db) (k : ℕ) : Prop where
  /-- the books are in order -/
  booked : Booked (updateAndCheckQuota^[k] db)
  /-- the ticks are filled in -/
  fill : (updateAndCheckQuota^[k] db).ticks.map (fillTick db.rates) = db.ticks.map (fillTick db.rates)
  /-- rates stay -/
  rates : (updateAndCheckQuota^[k] db).rates = db.rates
  /-- rates stay -/
  tokenRates : (updateAndCheckQuota^[k] db).tokenRates = db.tokenRates
  /-- credits stay -/
  credits : (updateAndCheckQuota^[k] db).credits = db.credits

theorem Booked.runs (h : Booked db) (k : ℕ) : Runs db k := by
  induction k with
  | zero => exact ⟨h, rfl, rfl, rfl, rfl⟩
  | succ k ih =>
    have hfill := run_fill ih.booked
    rw [ih.rates] at hfill
    refine ⟨?_, ?_, ?_, ?_, ?_⟩ <;> rw [Function.iterate_succ_apply']
    · exact ih.booked.updated
    · exact hfill.trans ih.fill
    · exact ih.rates
    · exact ih.tokenRates
    · exact ih.credits

theorem Unpriced.iterate (h : Unpriced db) (k : ℕ) :
    Unpriced (updateAndCheckQuota^[k] db) ∧ (updateAndCheckQuota^[k] db).tokens = db.tokens := by
  induction k with
  | zero => exact ⟨h, rfl⟩
  | succ k ih =>
    rw [Function.iterate_succ_apply']
    exact ⟨ih.1.run, (run_tokens ih.1).trans ih.2⟩

/-- A row of a tenant without ticks stays. -/
theorem iterate_idle {q : TenantQuota} (hu : Unpriced db) (hw : ¬ Waits db tenant)
    (hq : db.quota tenant = some q) : (updateAndCheckQuota^[k] db).quota tenant = some q := by
  induction k generalizing db with
  | zero => exact hq
  | succ k ih =>
    rw [Function.iterate_succ_apply]
    refine ih hu.run (fun h => hw h.of_run) ?_
    rw [run_idle hu hw, quota_insertTenants_of_some hq]

/-- Whoever has ticks left is current when all are processed. -/
theorem iterate_current {q : TenantQuota} (h : Booked db) (hu : Unpriced db) (hw : Waits db tenant)
    (hdone : Done (updateAndCheckQuota^[k] db)) (hq : (updateAndCheckQuota^[k] db).quota tenant = some q) :
    Current (creditsOf db.credits tenant) q := by
  induction k generalizing db with
  | zero =>
    obtain ⟨t, ht, hnew, -⟩ := hw
    exact absurd hnew (hdone t ht)
  | succ k ih =>
    rw [Function.iterate_succ_apply] at hdone hq
    by_cases hlater : Waits (updateAndCheckQuota db) tenant
    · have hcurrent := ih h.updated hu.run hlater hdone hq
      exact hcurrent
    · -- its last ticks are in this batch
      obtain ⟨q', hq'⟩ : ∃ q', (updateAndCheckQuota db).quota tenant = some q' := by
        rw [← Option.isSome_iff_exists, run_quota_isSome]
        simp [insertTenants, known_iff.mpr (.inl hw)]
      rw [iterate_idle hu.run hlater hq'] at hq
      obtain rfl := Option.some.inj hq
      obtain ⟨_, -, -, hcurrent | ⟨hfree, -⟩⟩ := run_quota hq'
      · exact hcurrent
      · obtain ⟨t, ht, hnew, htenant⟩ := hw
        have hbatch : t ∈ tickBatch db := by
          by_contra hout
          refine hlater ⟨t, ?_, hnew, htenant⟩
          have hids : t.id ∉ (tickBatch db).map UsageTick.id :=
            fun hmem => hout ((mem_batch_iff h.tickIds pick_subperm ht).mp hmem)
          exact List.mem_map.mpr ⟨t, ht, if_neg hids⟩
        rw [affected, Bool.or_eq_false_iff] at hfree
        exact absurd (beq_iff_eq.mpr htenant) (List.any_eq_false.mp hfree.1 t hbatch)

theorem insertTenants_of_none {q : TenantQuota} (hnone : db.quota tenant = none)
    (hq : (insertTenants db).quota tenant = some q) : q = {} := by
  unfold insertTenants at hq
  dsimp only at hq
  split at hq
  next =>
    rw [hnone] at hq
    exact (Option.some.inj hq).symm
  next =>
    rw [hnone] at hq
    cases hq

/-- A row stays. -/
theorem isSome_run (h : (db.quota tenant).isSome = true) :
    ((updateAndCheckQuota db).quota tenant).isSome = true := by
  obtain ⟨q, hq⟩ := Option.isSome_iff_exists.mp h
  rw [run_quota_isSome, quota_insertTenants_of_some hq]
  rfl

theorem isSome_iterate (h : (db.quota tenant).isSome = true) :
    ((updateAndCheckQuota^[k] db).quota tenant).isSome = true := by
  induction k generalizing db with
  | zero => exact h
  | succ k ih =>
    rw [Function.iterate_succ_apply]
    exact ih (isSome_run h)

theorem iterate_none (h : (updateAndCheckQuota^[k] db).quota tenant = none) : db.quota tenant = none := by
  rcases hq : db.quota tenant with _ | q
  · rfl
  · have hsome : ((updateAndCheckQuota^[k] db).quota tenant).isSome = true :=
      isSome_iterate (by rw [hq]; rfl)
    rw [h] at hsome
    cases hsome

/-- The threshold of a row stays. -/
theorem iterate_threshold {q : TenantQuota} (hq : (updateAndCheckQuota^[k] db).quota tenant = some q) :
    q.thresholdCents = ((db.quota tenant).getD {}).thresholdCents := by
  induction k generalizing q with
  | zero =>
    rw [show db.quota tenant = some q from hq]
    rfl
  | succ k ih =>
    rw [Function.iterate_succ_apply'] at hq
    obtain ⟨q', hq', hthreshold, -⟩ := run_quota hq
    rw [hthreshold]
    rcases hold : (updateAndCheckQuota^[k] db).quota tenant with _ | q₀
    · -- a new row, where there was none before either
      have hnone : db.quota tenant = none := iterate_none hold
      rw [insertTenants_of_none hold hq', hnone]
      rfl
    · rw [quota_insertTenants_of_some hold] at hq'
      obtain rfl := Option.some.inj hq'
      exact ih hold

theorem isSome_run_iff : ((updateAndCheckQuota db).quota tenant).isSome = true ↔
    (db.quota tenant).isSome = true ∨ known db tenant = true := by
  rw [run_quota_isSome]
  simp only [insertTenants]
  split
  next hknown => simp [hknown]
  next hknown => simp [hknown]

theorem isSome_of_iterate (hu : Unpriced db)
    (h : ((updateAndCheckQuota^[k] db).quota tenant).isSome = true) :
    (db.quota tenant).isSome = true ∨ known db tenant = true := by
  induction k generalizing db with
  | zero => exact .inl h
  | succ k ih =>
    rw [Function.iterate_succ_apply] at h
    rcases ih hu.run h with hrun | hknown
    · exact isSome_run_iff.mp hrun
    · exact .inr (known_of_run hu hknown)

/-- Who has a row after some runs. -/
theorem isSome_iterate_iff (hu : Unpriced db) (hk : 0 < k) :
    ((updateAndCheckQuota^[k] db).quota tenant).isSome = true ↔
      (db.quota tenant).isSome = true ∨ known db tenant = true := by
  refine ⟨isSome_of_iterate hu, fun h => ?_⟩
  obtain ⟨k, rfl⟩ := Nat.exists_eq_succ_of_ne_zero hk.ne'
  rw [Function.iterate_succ_apply]
  exact isSome_iterate (isSome_run_iff.mpr h)

/-! ## All ticks are processed -/

/-- How many ticks are left. -/
def left (db : Db) : ℤ := (db.ticks.map fun t => if t.processed.isNone then 1 else 0).sum

theorem left_nonneg (db : Db) : 0 ≤ left db := by
  refine sum_nonneg fun t _ => ?_
  split
  next => decide
  next => decide

/-- A run processes its batch. -/
theorem left_run (h : Booked db) : left (updateAndCheckQuota db) = left db - (tickBatch db).length := by
  have hmark : left (updateAndCheckQuota db) = left db + ((tickBatch db).map fun _ => (-1 : ℤ)).sum := by
    rw [left, run_ticks]
    refine sum_map_mark h.tickIds pick_subperm (fun t _ hout => ?_) fun t ht => ?_
    · rw [markTick, if_neg hout]
    · rw [markTick, if_pos (List.mem_map_of_mem ht), (tickBatch_new ht).2]
      simp
  rw [hmark, List.map_const', List.sum_replicate]
  simp [sub_eq_add_neg]

theorem exists_mem_pick {α : Type} {p : α → Bool} {le : α → α → Bool} {l : List α} {a : α} (ha : a ∈ l)
    (hp : p a = true) : ∃ b, b ∈ pick p le l := by
  have hfilter := List.length_pos_of_mem (List.mem_filter.mpr ⟨ha, hp⟩)
  refine List.exists_mem_of_length_pos ?_
  simp only [pick, List.length_take, List.length_mergeSort]
  exact lt_min (by decide) hfilter

/-- A batch is empty only if no tick is left. -/
theorem done_of_tickBatch (h : tickBatch db = []) : Done db := by
  intro t ht hnew
  obtain ⟨t', ht'⟩ : ∃ t', t' ∈ tickBatch db := exists_mem_pick ht (by rw [hnew]; rfl)
  rw [h] at ht'
  cases ht'

theorem Done.run (h : Done db) : Done (updateAndCheckQuota db) :=
  fun t ht hnew => h t (mem_of_run ht hnew).1 hnew

/-- Enough runs process all ticks. -/
theorem exists_done (h : Booked db) : ∃ k, 0 < k ∧ Done (updateAndCheckQuota^[k] db) := by
  obtain ⟨n, hn⟩ : ∃ n : ℕ, left db ≤ n := ⟨(left db).toNat, Int.self_le_toNat _⟩
  induction n generalizing db with
  | zero =>
    refine ⟨1, one_pos, Done.run (done_of_tickBatch ?_)⟩
    have hrun := left_run h
    have hnonneg := left_nonneg (updateAndCheckQuota db)
    refine List.length_eq_zero_iff.mp ?_
    push_cast at hn
    omega
  | succ n ih =>
    by_cases hnil : tickBatch db = []
    · exact ⟨1, one_pos, Done.run (done_of_tickBatch hnil)⟩
    · have hrun := left_run h
      have hpos := List.length_pos_of_ne_nil hnil
      obtain ⟨k, -, hdone⟩ := ih h.updated (by push_cast at hn; omega)
      refine ⟨k + 1, k.succ_pos, ?_⟩
      rw [Function.iterate_succ_apply]
      exact hdone

end Runs

end Inferx.Billing
