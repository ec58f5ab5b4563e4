import Mathlib.Algebra.Order.BigOperators.Group.List
import Inferx.Lib.Runs
import Inferx.Billing.Quota

/-!
# Usage is debited once and exactly

What a tenant has been debited is what its processed rows amount to at the rates they
were billed at: in whole cents, with a carry below a cent for each kind of usage. A
run adds the rows of its batches to both sides. Rows that are not processed count for
nothing yet, so nothing but a run changes either side.

The totals are determined by the processed rows, whatever the batches were.
-/

namespace Inferx.Billing

open Carry

variable {db : Db} {tenant : String} {standby : Bool}

/-! ## Debits -/

/-- What a tick has been debited. -/
def UsageTick.debit (standby : Bool) (tenant : String) (t : UsageTick) : ℤ :=
  match t.processed with
  | none => 0
  | some rate => if t.tenant = tenant ∧ decide (t.usageType = .standby) = standby then t.numer rate else 0

/-- What a token event has been debited. -/
def TokenEvent.debit (tenant : String) (e : TokenEvent) : ℤ :=
  match e.processed with
  | none => 0
  | some rate => if e.callerTenant = tenant then e.numer rate else 0

/-- What the ticks of a tenant have been debited. -/
def tickDebits (standby : Bool) (tenant : String) (ticks : List UsageTick) : ℤ :=
  (ticks.map (UsageTick.debit standby tenant)).sum

/-- What the token events of a tenant have been debited. -/
def tokenDebits (tenant : String) (tokens : List TokenEvent) : ℤ := (tokens.map (TokenEvent.debit tenant)).sum

/-- The totals of a tenant are what its rows have been debited. -/
structure Account (db : Db) (tenant : String) (q : TenantQuota) : Prop where
  /-- inference -/
  inference : Exact tickDivisor q.inferenceUsedCents q.inferenceCarryNumer (tickDebits false tenant db.ticks)
  /-- standby -/
  standby : Exact tickDivisor q.standbyUsedCents q.standbyCarryNumer (tickDebits true tenant db.ticks)
  /-- tokens -/
  token : Exact tokenDivisor q.tokenUsedCents q.tokenCarryNumer (tokenDebits tenant db.tokens)
  /-- all of it -/
  used : q.usedCents = q.inferenceUsedCents + q.standbyUsedCents + q.tokenUsedCents

/-- A batch of ticks is marked. -/
theorem tickDebits_mark {rates : List BillingRate} {ticks batch : List UsageTick}
    (hnodup : (ticks.map UsageTick.id).Nodup) (hsub : batch.Subperm ticks) (hnew : ∀ t ∈ batch, t.processed = none) :
    tickDebits standby tenant (ticks.map (markTick rates (batch.map UsageTick.id))) =
      tickDebits standby tenant ticks + tickAgg rates standby tenant batch := by
  unfold tickDebits tickAgg
  rw [sum_map_filter]
  refine sum_map_mark hnodup hsub (fun t _ hout => ?_) fun t ht => ?_
  · unfold markTick
    rw [if_neg hout]
  · unfold markTick UsageTick.debit
    rw [if_pos (List.mem_map_of_mem ht), hnew t ht]
    by_cases htenant : t.tenant = tenant
    · by_cases hkind : decide (t.usageType = .standby) = standby
      · simp [htenant, hkind, UsageTick.numer]
      · simp [htenant, hkind]
    · simp [htenant]

/-- A batch of token events is marked. -/
theorem tokenDebits_mark {rates : List TokenRate} {tokens batch : List TokenEvent}
    (hnodup : (tokens.map TokenEvent.gatewayRequestId).Nodup) (hsub : batch.Subperm tokens)
    (hnew : ∀ e ∈ batch, e.processed = none) :
    tokenDebits tenant (tokens.map (markToken rates (batch.map TokenEvent.gatewayRequestId))) =
      tokenDebits tenant tokens + tokenAgg rates tenant batch := by
  unfold tokenDebits tokenAgg
  rw [sum_map_filter]
  refine sum_map_mark hnodup hsub (fun e _ hout => ?_) fun e he => ?_
  · unfold markToken
    rw [if_neg hout]
  · unfold markToken TokenEvent.debit
    rw [if_pos (List.mem_map_of_mem he), hnew e he]
    rcases hrate : e.rate rates with _ | r
    · simp
    · by_cases htenant : e.callerTenant = tenant
      · simp [htenant, TokenEvent.numer, TokenEvent.inputTokens]
      · simp [htenant]

/-! ## Rates -/

/-- A fold that keeps what it has or takes what it sees ends with one of these. -/
theorem mem_of_foldl {α : Type} {f : Option α → α → Option α} (hf : ∀ acc a b, f acc a = some b → acc = some b ∨ b = a)
    {l l' : List α} {acc : Option α} (hacc : ∀ b, acc = some b → b ∈ l) (hl' : ∀ b ∈ l', b ∈ l) {b : α}
    (h : l'.foldl f acc = some b) : b ∈ l := by
  induction l' generalizing acc with
  | nil => exact hacc b h
  | cons c l' ih =>
    refine ih (fun x hx => ?_) (fun x hx => hl' x (List.mem_cons_of_mem _ hx)) h
    rcases hf acc c x hx with hkept | rfl
    · exact hacc x hkept
    · exact hl' x List.mem_cons_self

theorem firstBy_mem {α : Type} {before : α → α → Bool} {l : List α} {a : α} (h : firstBy before l = some a) :
    a ∈ l := by
  unfold firstBy at h
  refine mem_of_foldl (fun acc c b hb => ?_) (fun b hb => by cases hb) (fun b hb => hb) h
  rcases acc with _ | y
  · exact Or.inr (Option.some.inj hb).symm
  · by_cases hbefore : before c y = true
    · simp only [hbefore, if_true] at hb
      exact Or.inr (Option.some.inj hb).symm
    · simp only [hbefore] at hb
      exact Or.inl hb

variable {rates : List BillingRate} {tokenRates : List TokenRate}

/-- No rate is negative. -/
structure RatesOk (rates : List BillingRate) (tokenRates : List TokenRate) : Prop where
  /-- rates for ticks -/
  rate : ∀ r ∈ rates, 0 ≤ r.rateCentsPerHour
  /-- rates for tokens -/
  tokenRate : ∀ r ∈ tokenRates, 0 ≤ r.input ∧ 0 ≤ r.output ∧ 0 ≤ r.cached

theorem RatesOk.tick (h : RatesOk rates tokenRates) {t : UsageTick} (hgpu : 0 ≤ t.gpuCount)
    (hms : 0 ≤ t.intervalMs) : 0 ≤ t.numer (t.rate rates) := by
  unfold UsageTick.numer
  refine mul_nonneg (mul_nonneg hgpu hms) ?_
  unfold UsageTick.rate billingRate
  rcases hfirst : firstBy BillingRate.before _ with _ | r
  · exact le_refl 0
  · exact h.rate r (List.mem_filter.mp (firstBy_mem hfirst)).1

theorem RatesOk.token (h : RatesOk rates tokenRates) {e : TokenEvent} {r : TokenRate}
    (hr : e.rate tokenRates = some r) (hp : 0 ≤ e.promptTokens) (hc : 0 ≤ e.completionTokens)
    (hcached : 0 ≤ e.cachedTokens) : 0 ≤ e.numer r := by
  obtain ⟨hin, hout, hcache⟩ := h.tokenRate r (List.mem_filter.mp (firstBy_mem hr)).1
  have hinput : 0 ≤ e.inputTokens r := by
    unfold TokenEvent.inputTokens
    split
    next => exact hp
    next => exact le_max_right _ _
  exact add_nonneg (add_nonneg (mul_nonneg hinput hin) (mul_nonneg hcached hcache)) (mul_nonneg hc hout)

theorem sum_nonneg {α : Type} {l : List α} {f : α → ℤ} (h : ∀ a ∈ l, 0 ≤ f a) : 0 ≤ (l.map f).sum := by
  refine List.sum_nonneg fun x hx => ?_
  obtain ⟨a, ha, rfl⟩ := List.mem_map.mp hx
  exact h a ha

/-! ## Batches -/

theorem pick_subperm {α : Type} {p : α → Bool} {le : α → α → Bool} {l : List α} : (pick p le l).Subperm l := by
  unfold pick
  have htake : (((l.filter p).mergeSort le).take batchLimit).Subperm ((l.filter p).mergeSort le) :=
    (List.take_sublist _ _).subperm
  have hsort : ((l.filter p).mergeSort le).Subperm (l.filter p) := (List.mergeSort_perm _ _).subperm
  exact (htake.trans hsort).trans List.filter_sublist.subperm

theorem of_mem_pick {α : Type} {p : α → Bool} {le : α → α → Bool} {l : List α} {a : α} (h : a ∈ pick p le l) :
    a ∈ l ∧ p a = true := by
  unfold pick at h
  exact List.mem_filter.mp ((List.mergeSort_perm _ _).mem_iff.mp (List.mem_of_mem_take h))

theorem tickBatch_new {t : UsageTick} (h : t ∈ tickBatch db) : t ∈ db.ticks ∧ t.processed = none := by
  obtain ⟨hmem, hnew⟩ := of_mem_pick h
  exact ⟨hmem, Option.isNone_iff_eq_none.mp hnew⟩

theorem tokenBatch_new {e : TokenEvent} (h : e ∈ tokenBatch db) :
    e ∈ db.tokens ∧ e.processed = none ∧ (e.rate db.tokenRates).isSome = true := by
  obtain ⟨hmem, hnew⟩ := of_mem_pick h
  rw [Bool.and_eq_true] at hnew
  exact ⟨hmem, Option.isNone_iff_eq_none.mp hnew.1, hnew.2⟩

/-! ## The invariant -/

/-- The books of the database are in order. -/
structure Booked (db : Db) : Prop where
  /-- ticks are numbered -/
  tickId : ∀ t ∈ db.ticks, t.id < db.ticks.length
  /-- no two ticks have the same id -/
  tickIds : (db.ticks.map UsageTick.id).Nodup
  /-- no two token events have the same id -/
  tokenIds : (db.tokens.map TokenEvent.gatewayRequestId).Nodup
  /-- no count of a tick is negative -/
  ticks : ∀ t ∈ db.ticks, 0 ≤ t.gpuCount ∧ 0 ≤ t.intervalMs
  /-- no count of a token event is negative -/
  tokens : ∀ e ∈ db.tokens, 0 ≤ e.promptTokens ∧ 0 ≤ e.completionTokens ∧ 0 ≤ e.cachedTokens
  /-- no rate is negative -/
  rates : RatesOk db.rates db.tokenRates
  /-- the totals of the tenants -/
  account : ∀ tenant q, db.quota tenant = some q → Account db tenant q
  /-- who has been debited has totals -/
  tickTenant : ∀ t ∈ db.ticks, t.processed ≠ none → (db.quota t.tenant).isSome = true
  /-- who has been debited has totals -/
  tokenTenant : ∀ e ∈ db.tokens, e.processed ≠ none → (db.quota e.callerTenant).isSome = true

/-- The rates of processed rows are still theirs. -/
structure RatesKept (db : Db) : Prop where
  /-- ticks -/
  tick : ∀ t ∈ db.ticks, ∀ x, t.processed = some (some x) → t.rate db.rates = some x
  /-- token events -/
  token : ∀ e ∈ db.tokens, ∀ x, e.processed = some x → e.rate db.tokenRates = some x

theorem tickDebits_none (h : ∀ t ∈ db.ticks, t.processed ≠ none → t.tenant ≠ tenant) :
    tickDebits standby tenant db.ticks = 0 := by
  refine List.sum_eq_zero fun x hx => ?_
  obtain ⟨t, ht, rfl⟩ := List.mem_map.mp hx
  unfold UsageTick.debit
  split
  next => rfl
  next rate hrate => exact if_neg fun hand => h t ht (by rw [hrate]; simp) hand.1

theorem tokenDebits_none (h : ∀ e ∈ db.tokens, e.processed ≠ none → e.callerTenant ≠ tenant) :
    tokenDebits tenant db.tokens = 0 := by
  refine List.sum_eq_zero fun x hx => ?_
  obtain ⟨e, he, rfl⟩ := List.mem_map.mp hx
  unfold TokenEvent.debit
  split
  next => rfl
  next rate hrate => exact if_neg fun heq => h e he (by rw [hrate]; simp) heq

/-- A tenant without a row has not been debited. -/
theorem Booked.account_none (h : Booked db) (hq : db.quota tenant = none) : Account db tenant {} := by
  have hticks : ∀ t ∈ db.ticks, t.processed ≠ none → t.tenant ≠ tenant := by
    intro t ht hproc heq
    have hsome := h.tickTenant t ht hproc
    rw [heq, hq] at hsome
    cases hsome
  have htokens : ∀ e ∈ db.tokens, e.processed ≠ none → e.callerTenant ≠ tenant := by
    intro e he hproc heq
    have hsome := h.tokenTenant e he hproc
    rw [heq, hq] at hsome
    cases hsome
  refine ⟨?_, ?_, ?_, rfl⟩
  · rw [tickDebits_none hticks]
    exact Exact.zero (by decide)
  · rw [tickDebits_none hticks]
    exact Exact.zero (by decide)
  · rw [tokenDebits_none htokens]
    exact Exact.zero (by decide)

/-- Totals with the same usage. -/
structure SameUsage (q q' : TenantQuota) : Prop where
  /-- inference -/
  inference : q'.inferenceUsedCents = q.inferenceUsedCents ∧ q'.inferenceCarryNumer = q.inferenceCarryNumer
  /-- standby -/
  standby : q'.standbyUsedCents = q.standbyUsedCents ∧ q'.standbyCarryNumer = q.standbyCarryNumer
  /-- tokens -/
  token : q'.tokenUsedCents = q.tokenUsedCents ∧ q'.tokenCarryNumer = q.tokenCarryNumer
  /-- all of it -/
  used : q'.usedCents = q.usedCents

theorem SameUsage.refl (q : TenantQuota) : SameUsage q q := ⟨⟨rfl, rfl⟩, ⟨rfl, rfl⟩, ⟨rfl, rfl⟩, rfl⟩

/-- An account is a matter of the usage and of the debits. -/
theorem Account.congr {db' : Db} {q q' : TenantQuota} (h : Account db tenant q) (hq : SameUsage q q')
    (hticks : ∀ standby, tickDebits standby tenant db'.ticks = tickDebits standby tenant db.ticks)
    (htokens : tokenDebits tenant db'.tokens = tokenDebits tenant db.tokens) : Account db' tenant q' := by
  refine ⟨?_, ?_, ?_, ?_⟩
  · rw [hq.inference.1, hq.inference.2, hticks]
    exact h.inference
  · rw [hq.standby.1, hq.standby.2, hticks]
    exact h.standby
  · rw [hq.token.1, hq.token.2, htokens]
    exact h.token
  · rw [hq.used, hq.inference.1, hq.standby.1, hq.token.1]
    exact h.used

/-- Step 1 of a run keeps the books. -/
theorem Booked.insertTenants (h : Booked db) : Booked (insertTenants db) := by
  have hquota : ∀ tenant, (db.quota tenant).isSome = true → ((Billing.insertTenants db).quota tenant).isSome = true := by
    intro tenant hsome
    unfold Billing.insertTenants
    dsimp only
    split
    next => rfl
    next => exact hsome
  refine ⟨h.tickId, h.tickIds, h.tokenIds, h.ticks, h.tokens, h.rates, ?_,
    fun t ht hproc => hquota _ (h.tickTenant t ht hproc), fun e he hproc => hquota _ (h.tokenTenant e he hproc)⟩
  intro tenant q hq
  have hacc : Account db tenant q := by
    unfold Billing.insertTenants at hq
    dsimp only at hq
    split at hq
    next =>
      rcases hold : db.quota tenant with _ | q'
      · rw [hold] at hq
        obtain rfl := Option.some.inj hq
        exact h.account_none hold
      · rw [hold] at hq
        obtain rfl := Option.some.inj hq
        exact h.account tenant _ hold
    next => exact h.account tenant q hq
  exact hacc.congr (SameUsage.refl q) (fun _ => rfl) rfl

/-! ## Batches are booked -/

variable {ticks : List UsageTick} {tokens : List TokenEvent}

/-- Two batches that may be booked: rows that are not processed, of tenants that have
totals. -/
structure Batches (db : Db) (tokenRates : List TokenRate) (ticks : List UsageTick) (tokens : List TokenEvent) :
    Prop where
  /-- ticks of the table -/
  subTicks : ticks.Subperm db.ticks
  /-- token events of the table -/
  subTokens : tokens.Subperm db.tokens
  /-- ticks that are not processed -/
  newTicks : ∀ t ∈ ticks, t.processed = none
  /-- token events that are not processed, and have a rate -/
  newTokens : ∀ e ∈ tokens, e.processed = none ∧ (e.rate tokenRates).isSome = true
  /-- their tenants have totals -/
  tickTenant : ∀ t ∈ ticks, (db.quota t.tenant).isSome = true
  /-- their tenants have totals -/
  tokenTenant : ∀ e ∈ tokens, (db.quota e.callerTenant).isSome = true

theorem tickAgg_nonneg (h : Booked db) (hr : RatesOk rates tokenRates) (hsub : ∀ t ∈ ticks, t ∈ db.ticks) :
    0 ≤ tickAgg rates standby tenant ticks := by
  refine sum_nonneg fun t ht => ?_
  obtain ⟨hgpu, hms⟩ := h.ticks t (hsub t (List.mem_filter.mp ht).1)
  split
  next => exact hr.tick hgpu hms
  next => exact le_refl 0

theorem tokenAgg_nonneg (h : Booked db) (hr : RatesOk rates tokenRates) (hsub : ∀ e ∈ tokens, e ∈ db.tokens) :
    0 ≤ tokenAgg tokenRates tenant tokens := by
  refine sum_nonneg fun e he => ?_
  obtain ⟨hp, hc, hcached⟩ := h.tokens e (hsub e (List.mem_filter.mp he).1)
  rcases hrate : e.rate tokenRates with _ | r
  · exact le_refl 0
  · exact hr.token hrate hp hc hcached

/-- A tenant that is not affected has nothing in the batches. -/
theorem agg_eq_zero (standby : Bool) (h : affected ticks tokens tenant = false) (rates : List BillingRate)
    (tokenRates : List TokenRate) :
    tickAgg rates standby tenant ticks = 0 ∧ tokenAgg tokenRates tenant tokens = 0 := by
  unfold affected at h
  rw [Bool.or_eq_false_iff] at h
  have hticks : ticks.filter (fun t => t.tenant == tenant) = [] := by
    refine List.filter_eq_nil_iff.mpr fun t ht => ?_
    simpa using List.any_eq_false.mp h.1 t ht
  have htokens : tokens.filter (fun e => e.callerTenant == tenant) = [] := by
    refine List.filter_eq_nil_iff.mpr fun e he => ?_
    simpa using List.any_eq_false.mp h.2 e he
  unfold tickAgg tokenAgg
  rw [hticks, htokens]
  exact ⟨rfl, rfl⟩

/-- The totals after one more batch. -/
theorem calcQuota_account {db' : Db} {q : TenantQuota} {inference standby token credits : ℤ}
    (h : Account db tenant q) (hi : 0 ≤ inference) (hs : 0 ≤ standby) (ht : 0 ≤ token)
    (hinference : tickDebits false tenant db'.ticks = tickDebits false tenant db.ticks + inference)
    (hstandby : tickDebits true tenant db'.ticks = tickDebits true tenant db.ticks + standby)
    (htoken : tokenDebits tenant db'.tokens = tokenDebits tenant db.tokens + token) :
    Account db' tenant (calcQuota q inference standby token credits) := by
  refine ⟨?_, ?_, ?_, rfl⟩
  · rw [hinference]
    exact h.inference.add hi
  · rw [hstandby]
    exact h.standby.add hs
  · rw [htoken]
    exact h.token.add ht

/-- The new totals of a tenant: those of a batch, if it is affected, and the old ones
else. -/
def Totals (db : Db) (rates : List BillingRate) (tokenRates : List TokenRate) (ticks : List UsageTick)
    (tokens : List TokenEvent) (tenant : String) (q : TenantQuota) : Prop :=
  ∃ q₀, db.quota tenant = some q₀ ∧
    if affected ticks tokens tenant then
      ∃ q₁ credits, SameUsage q₀ q₁ ∧
        SameUsage (calcQuota q₁ (tickAgg rates false tenant ticks) (tickAgg rates true tenant ticks)
          (tokenAgg tokenRates tenant tokens) credits) q
    else SameUsage q₀ q

variable {quota : String → Option TenantQuota}

/-- The totals of each tenant after its batches are booked. -/
theorem Booked.book_account (h : Booked db) (hr : RatesOk rates tokenRates) (hb : Batches db tokenRates ticks tokens)
    {q : TenantQuota} (hq : Totals db rates tokenRates ticks tokens tenant q) :
    Account (book db rates tokenRates ticks tokens quota) tenant q := by
  have hdebits : ∀ standby, tickDebits standby tenant (book db rates tokenRates ticks tokens quota).ticks =
      tickDebits standby tenant db.ticks + tickAgg rates standby tenant ticks :=
    fun standby => tickDebits_mark h.tickIds hb.subTicks hb.newTicks
  have htokens : tokenDebits tenant (book db rates tokenRates ticks tokens quota).tokens =
      tokenDebits tenant db.tokens + tokenAgg tokenRates tenant tokens :=
    tokenDebits_mark h.tokenIds hb.subTokens fun e he => (hb.newTokens e he).1
  obtain ⟨q₀, hq₀, htotals⟩ := hq
  have hold := h.account tenant q₀ hq₀
  split at htotals
  next =>
    obtain ⟨q₁, credits, hq₁, hsame⟩ := htotals
    have hbase : Account db tenant q₁ := hold.congr hq₁ (fun _ => rfl) rfl
    refine Account.congr ?_ hsame (fun _ => rfl) rfl
    exact calcQuota_account hbase (tickAgg_nonneg h hr fun t ht => hb.subTicks.subset ht)
      (tickAgg_nonneg h hr fun t ht => hb.subTicks.subset ht) (tokenAgg_nonneg h hr fun e he => hb.subTokens.subset he)
      (hdebits false) (hdebits true) htokens
  next hfree =>
    have hzero := fun standby => agg_eq_zero standby (Bool.eq_false_iff.mpr hfree) rates tokenRates
    refine hold.congr htotals (fun standby => ?_) ?_
    · rw [hdebits, (hzero standby).1, add_zero]
    · rw [htokens, (hzero false).2, add_zero]

theorem id_markTick (rates : List BillingRate) (ids : List ℕ) (t : UsageTick) : (markTick rates ids t).id = t.id := by
  unfold markTick
  split
  next => rfl
  next => rfl

theorem id_markToken (rates : List TokenRate) (ids : List String) (e : TokenEvent) :
    (markToken rates ids e).gatewayRequestId = e.gatewayRequestId := by
  unfold markToken
  split
  next => rfl
  next => rfl

/-- A tick after the marks: as it was, or one of the batch with its rate. -/
theorem markTick_cases (h : Booked db) (hb : Batches db tokenRates ticks tokens) {t : UsageTick} (ht : t ∈ db.ticks) :
    markTick rates (ticks.map UsageTick.id) t = t ∨
      t ∈ ticks ∧ markTick rates (ticks.map UsageTick.id) t = { t with processed := some (t.rate rates) } := by
  unfold markTick
  split
  next hmem => exact Or.inr ⟨(mem_batch_iff h.tickIds hb.subTicks ht).mp hmem, rfl⟩
  next => exact Or.inl rfl

/-- A token event after the marks: as it was, or one of the batch with its rate. -/
theorem markToken_cases (h : Booked db) (hb : Batches db tokenRates ticks tokens) {e : TokenEvent}
    (he : e ∈ db.tokens) :
    markToken tokenRates (tokens.map TokenEvent.gatewayRequestId) e = e ∨
      e ∈ tokens ∧ markToken tokenRates (tokens.map TokenEvent.gatewayRequestId) e =
        { e with processed := e.rate tokenRates } := by
  unfold markToken
  split
  next hmem => exact Or.inr ⟨(mem_batch_iff h.tokenIds hb.subTokens he).mp hmem, rfl⟩
  next => exact Or.inl rfl

theorem mem_book_ticks {t' : UsageTick} (h : t' ∈ (book db rates tokenRates ticks tokens quota).ticks) :
    ∃ t ∈ db.ticks, t' = markTick rates (ticks.map UsageTick.id) t := by
  obtain ⟨t, ht, heq⟩ := List.mem_map.mp h
  exact ⟨t, ht, heq.symm⟩

theorem mem_book_tokens {e' : TokenEvent} (h : e' ∈ (book db rates tokenRates ticks tokens quota).tokens) :
    ∃ e ∈ db.tokens, e' = markToken tokenRates (tokens.map TokenEvent.gatewayRequestId) e := by
  obtain ⟨e, he, heq⟩ := List.mem_map.mp h
  exact ⟨e, he, heq.symm⟩

/-- Booking two batches keeps the books. -/
theorem Booked.book (h : Booked db) (hr : RatesOk rates tokenRates) (hb : Batches db tokenRates ticks tokens)
    (hsome : ∀ tenant, (db.quota tenant).isSome = true → (quota tenant).isSome = true)
    (hquota : ∀ tenant q, quota tenant = some q → Totals db rates tokenRates ticks tokens tenant q) :
    Booked (book db rates tokenRates ticks tokens quota) := by
  refine ⟨?_, ?_, ?_, ?_, ?_, h.rates, fun tenant q hq => h.book_account hr hb (hquota tenant q hq), ?_, ?_⟩
  · intro t' ht'
    obtain ⟨t, ht, rfl⟩ := mem_book_ticks ht'
    unfold Billing.book
    rw [id_markTick, List.length_map]
    exact h.tickId t ht
  · unfold Billing.book
    have hids : UsageTick.id ∘ markTick rates (ticks.map UsageTick.id) = UsageTick.id :=
      funext fun t => id_markTick _ _ t
    rw [List.map_map, hids]
    exact h.tickIds
  · unfold Billing.book
    have hids : TokenEvent.gatewayRequestId ∘ markToken tokenRates (tokens.map TokenEvent.gatewayRequestId) =
        TokenEvent.gatewayRequestId := funext fun e => id_markToken _ _ e
    rw [List.map_map, hids]
    exact h.tokenIds
  · intro t' ht'
    obtain ⟨t, ht, rfl⟩ := mem_book_ticks ht'
    rcases markTick_cases h hb ht with heq | ⟨-, heq⟩
    · rw [heq]
      exact h.ticks t ht
    · rw [heq]
      exact h.ticks t ht
  · intro e' he'
    obtain ⟨e, he, rfl⟩ := mem_book_tokens he'
    rcases markToken_cases h hb he with heq | ⟨-, heq⟩
    · rw [heq]
      exact h.tokens e he
    · rw [heq]
      exact h.tokens e he
  · intro t' ht' hproc
    obtain ⟨t, ht, rfl⟩ := mem_book_ticks ht'
    rcases markTick_cases h hb ht with heq | ⟨hmem, heq⟩
    · rw [heq] at hproc ⊢
      exact hsome _ (h.tickTenant t ht hproc)
    · rw [heq]
      exact hsome _ (hb.tickTenant t hmem)
  · intro e' he' hproc
    obtain ⟨e, he, rfl⟩ := mem_book_tokens he'
    rcases markToken_cases h hb he with heq | ⟨hmem, heq⟩
    · rw [heq] at hproc ⊢
      exact hsome _ (h.tokenTenant e he hproc)
    · rw [heq]
      exact hsome _ (hb.tokenTenant e hmem)

/-- A tenant that has totals keeps them when a batch is settled. -/
theorem isSome_settle (h : (db.quota tenant).isSome = true) :
    ((settle db ticks tokens).quota tenant).isSome = true := by
  obtain ⟨q, hq⟩ := Option.isSome_iff_exists.mp h
  unfold settle Billing.book
  dsimp only
  rw [hq]
  rfl

theorem totals_settle {q : TenantQuota} (hq : (settle db ticks tokens).quota tenant = some q) :
    Totals db db.rates db.tokenRates ticks tokens tenant q := by
  obtain ⟨q₀, hq₀, hcalc⟩ := Option.map_eq_some_iff.mp hq
  refine ⟨q₀, hq₀, ?_⟩
  split at hcalc
  next haff =>
    subst hcalc
    rw [if_pos haff]
    exact ⟨q₀, _, SameUsage.refl q₀, SameUsage.refl _⟩
  next hfree =>
    subst hcalc
    rw [if_neg hfree]
    exact SameUsage.refl q₀

/-- The totals of a tenant that is affected. -/
theorem quota_settle {q : TenantQuota} (hq : db.quota tenant = some q) (haff : affected ticks tokens tenant = true) :
    (settle db ticks tokens).quota tenant =
      some (calcQuota q (tickAgg db.rates false tenant ticks) (tickAgg db.rates true tenant ticks)
        (tokenAgg db.tokenRates tenant tokens) (creditsOf db.credits tenant)) := by
  unfold settle Billing.book
  dsimp only
  rw [hq, Option.map_some, if_pos haff]

/-- Settling keeps the books. -/
theorem Booked.settle (h : Booked db) (hb : Batches db db.tokenRates ticks tokens) :
    Booked (settle db ticks tokens) :=
  h.book h.rates hb (fun _ hsome => isSome_settle hsome) fun _ _ hq => totals_settle hq

/-- Settling keeps the rates. -/
theorem RatesKept.settle (hk : RatesKept db) (h : Booked db) (hb : Batches db db.tokenRates ticks tokens) :
    RatesKept (settle db ticks tokens) := by
  refine ⟨?_, ?_⟩
  · intro t' ht' x hx
    obtain ⟨t, ht, rfl⟩ := mem_book_ticks ht'
    rcases markTick_cases h hb ht with heq | ⟨-, heq⟩
    · rw [heq] at hx ⊢
      exact hk.tick t ht x hx
    · rw [heq] at hx ⊢
      exact Option.some.inj hx
  · intro e' he' x hx
    obtain ⟨e, he, rfl⟩ := mem_book_tokens he'
    rcases markToken_cases h hb he with heq | ⟨-, heq⟩
    · rw [heq] at hx ⊢
      exact hk.token e he x hx
    · rw [heq] at hx ⊢
      exact hx

/-- The batches of a run may be settled. -/
theorem batches_run : Batches (insertTenants db) (insertTenants db).tokenRates (tickBatch (insertTenants db))
    (tokenBatch (insertTenants db)) := by
  refine ⟨pick_subperm, pick_subperm, fun t ht => (tickBatch_new ht).2, fun e he => (tokenBatch_new he).2, ?_, ?_⟩
  · intro t ht
    obtain ⟨hmem, hnew⟩ := tickBatch_new ht
    have hknown : known db t.tenant = true := by
      have hany : db.ticks.any (fun t' => t'.processed.isNone && t'.tenant == t.tenant) = true :=
        List.any_eq_true.mpr ⟨t, hmem, by simp [hnew]⟩
      unfold known
      rw [hany]
      rfl
    unfold insertTenants
    dsimp only
    rw [if_pos hknown]
    rfl
  · intro e he
    obtain ⟨hmem, hnew, -⟩ := tokenBatch_new he
    have hknown : known db e.callerTenant = true := by
      unfold known
      rw [Bool.or_eq_true]
      exact Or.inr (List.any_eq_true.mpr ⟨e, hmem, by simp [hnew]⟩)
    unfold insertTenants
    dsimp only
    rw [if_pos hknown]
    rfl

/-! ## Histories -/

/-- A database before any usage. -/
structure NewDb (db : Db) : Prop where
  /-- no ticks -/
  ticks : db.ticks = []
  /-- no token events -/
  tokens : db.tokens = []
  /-- no rate is negative -/
  rates : RatesOk db.rates db.tokenRates
  /-- nothing is debited -/
  quota : ∀ tenant q, db.quota tenant = some q → Account db tenant q

theorem NewDb.booked (h : NewDb db) : Booked db := by
  refine ⟨?_, ?_, ?_, ?_, ?_, h.rates, h.quota, ?_, ?_⟩ <;> simp [h.ticks, h.tokens]

theorem NewDb.ratesKept (h : NewDb db) : RatesKept db := by
  refine ⟨?_, ?_⟩ <;> simp [h.ticks, h.tokens]

/-- A row that is not processed is debited nothing. -/
theorem tickDebits_append {t : UsageTick} (h : t.processed = none) (l : List UsageTick) :
    tickDebits standby tenant (l ++ [t]) = tickDebits standby tenant l := by
  unfold tickDebits
  simp [UsageTick.debit, h]

theorem tokenDebits_append {e : TokenEvent} (h : e.processed = none) (l : List TokenEvent) :
    tokenDebits tenant (l ++ [e]) = tokenDebits tenant l := by
  unfold tokenDebits
  simp [TokenEvent.debit, h]

/-- A new tick keeps the books. -/
theorem Booked.tick (h : Booked db) {t : UsageTick} (hid : t.id = db.ticks.length) (hnew : t.processed = none)
    (hok : 0 ≤ t.gpuCount ∧ 0 ≤ t.intervalMs) : Booked { db with ticks := db.ticks ++ [t] } := by
  refine ⟨?_, ?_, h.tokenIds, ?_, h.tokens, h.rates, ?_, ?_, h.tokenTenant⟩
  · intro t' ht'
    rw [List.length_append, List.length_singleton]
    rcases List.mem_append.mp ht' with hold | hone
    · exact Nat.lt_succ_of_lt (h.tickId t' hold)
    · rw [List.mem_singleton.mp hone, hid]
      exact Nat.lt_succ_self _
  · rw [List.map_append, List.nodup_append]
    refine ⟨h.tickIds, List.nodup_singleton _, fun a ha b hb => ?_⟩
    obtain ⟨t', ht', rfl⟩ := List.mem_map.mp ha
    obtain rfl := List.mem_singleton.mp hb
    have hlt := h.tickId t' ht'
    omega
  · intro t' ht'
    rcases List.mem_append.mp ht' with hold | hone
    · exact h.ticks t' hold
    · rw [List.mem_singleton.mp hone]
      exact hok
  · exact fun tenant q hq => (h.account tenant q hq).congr (SameUsage.refl q)
      (fun _ => tickDebits_append hnew _) rfl
  · intro t' ht' hproc
    rcases List.mem_append.mp ht' with hold | hone
    · exact h.tickTenant t' hold hproc
    · rw [List.mem_singleton.mp hone] at hproc
      exact absurd hnew hproc

/-- A new token event keeps the books. -/
theorem Booked.token (h : Booked db) {e : TokenEvent}
    (hid : e.gatewayRequestId ∉ db.tokens.map TokenEvent.gatewayRequestId) (hnew : e.processed = none)
    (hok : 0 ≤ e.promptTokens ∧ 0 ≤ e.completionTokens ∧ 0 ≤ e.cachedTokens) :
    Booked { db with tokens := db.tokens ++ [e] } := by
  refine ⟨h.tickId, h.tickIds, ?_, h.ticks, ?_, h.rates, ?_, h.tickTenant, ?_⟩
  · rw [List.map_append, List.nodup_append]
    refine ⟨h.tokenIds, List.nodup_singleton _, fun a ha b hb heq => ?_⟩
    obtain rfl := List.mem_singleton.mp hb
    exact hid (heq ▸ ha)
  · intro e' he'
    rcases List.mem_append.mp he' with hold | hone
    · exact h.tokens e' hold
    · rw [List.mem_singleton.mp hone]
      exact hok
  · exact fun tenant q hq => (h.account tenant q hq).congr (SameUsage.refl q) (fun _ => rfl)
      (tokenDebits_append hnew _)
  · intro e' he' hproc
    rcases List.mem_append.mp he' with hold | hone
    · exact h.tokenTenant e' hold hproc
    · rw [List.mem_singleton.mp hone] at hproc
      exact absurd hnew hproc

/-- One operation keeps the books. -/
theorem Booked.next (h : Booked db) {op : Op} {db' : Db} (hok : OpNonneg op) (hnext : db.next op = some db') :
    Booked db' := by
  cases op with
  | tick t =>
    obtain rfl := Option.some.inj hnext
    exact h.tick rfl rfl hok
  | token e =>
    unfold Db.next at hnext
    dsimp only at hnext
    split at hnext
    next =>
      obtain rfl := Option.some.inj hnext
      exact h
    next hfresh =>
      obtain rfl := Option.some.inj hnext
      refine h.token (fun hmem => hfresh ?_) rfl hok
      obtain ⟨e', he', heq⟩ := List.mem_map.mp hmem
      exact List.any_eq_true.mpr ⟨e', he', beq_iff_eq.mpr heq⟩
  | credit c =>
    obtain rfl := Option.some.inj hnext
    unfold addTenantCredit
    split
    next => exact h
    next =>
      exact ⟨h.tickId, h.tickIds, h.tokenIds, h.ticks, h.tokens, h.rates, fun tenant q hq =>
        (h.account tenant q hq).congr (SameUsage.refl q) (fun _ => rfl) rfl, h.tickTenant, h.tokenTenant⟩
  | rate r =>
    obtain rfl := Option.some.inj hnext
    refine ⟨h.tickId, h.tickIds, h.tokenIds, h.ticks, h.tokens, ⟨?_, h.rates.tokenRate⟩, fun tenant q hq =>
      (h.account tenant q hq).congr (SameUsage.refl q) (fun _ => rfl) rfl, h.tickTenant, h.tokenTenant⟩
    intro r' hr'
    rcases List.mem_append.mp hr' with hold | hone
    · exact h.rates.rate r' hold
    · rw [List.mem_singleton.mp hone]
      exact hok
  | tokenRate r =>
    obtain rfl := Option.some.inj hnext
    refine ⟨h.tickId, h.tickIds, h.tokenIds, h.ticks, h.tokens, ⟨h.rates.rate, ?_⟩, fun tenant q hq =>
      (h.account tenant q hq).congr (SameUsage.refl q) (fun _ => rfl) rfl, h.tickTenant, h.tokenTenant⟩
    intro r' hr'
    rcases List.mem_append.mp hr' with hold | hone
    · exact h.rates.tokenRate r' hold
    · rw [List.mem_singleton.mp hone]
      exact hok
  | run =>
    obtain rfl := Option.some.inj hnext
    exact h.insertTenants.settle batches_run

/-- One operation keeps the rates of processed rows. -/
theorem RatesKept.next (hk : RatesKept db) (h : Booked db) {op : Op} {db' : Db} (hok : NotRetroactive db op)
    (hnext : db.next op = some db') : RatesKept db' := by
  cases op with
  | tick t =>
    obtain rfl := Option.some.inj hnext
    refine ⟨fun t' ht' x hx => ?_, hk.token⟩
    rcases List.mem_append.mp ht' with hold | hone
    · exact hk.tick t' hold x hx
    · rw [List.mem_singleton.mp hone] at hx
      cases hx
  | token e =>
    unfold Db.next at hnext
    dsimp only at hnext
    split at hnext
    next =>
      obtain rfl := Option.some.inj hnext
      exact hk
    next =>
      obtain rfl := Option.some.inj hnext
      refine ⟨hk.tick, fun e' he' x hx => ?_⟩
      rcases List.mem_append.mp he' with hold | hone
      · exact hk.token e' hold x hx
      · rw [List.mem_singleton.mp hone] at hx
        cases hx
  | credit c =>
    obtain rfl := Option.some.inj hnext
    unfold addTenantCredit
    split
    next => exact hk
    next => exact ⟨hk.tick, hk.token⟩
  | rate r =>
    obtain rfl := Option.some.inj hnext
    exact ⟨fun t ht x hx => hok t ht x (hk.tick t ht x hx), hk.token⟩
  | tokenRate r =>
    obtain rfl := Option.some.inj hnext
    exact ⟨hk.tick, fun e he x hx => hok e he x (hk.token e he x hx)⟩
  | run =>
    obtain rfl := Option.some.inj hnext
    have hkept : RatesKept (insertTenants db) := ⟨hk.tick, hk.token⟩
    exact hkept.settle h.insertTenants batches_run

/-- What a run leads to. -/
structure RunOk (db db' : Db) : Prop where
  /-- each tenant's totals are what its processed rows amount to -/
  account : ∀ tenant q, db'.quota tenant = some q → Account db' tenant q
  /-- the tenant of a processed tick has totals -/
  tickTenant : ∀ t ∈ db'.ticks, t.processed ≠ none → (db'.quota t.tenant).isSome = true
  /-- the tenant of a processed token event has totals -/
  tokenTenant : ∀ e ∈ db'.tokens, e.processed ≠ none → (db'.quota e.callerTenant).isSome = true
  /-- the rate of a processed tick is the one it has -/
  tickRate : ∀ t ∈ db'.ticks, ∀ x, t.processed = some (some x) → t.rate db'.rates = some x
  /-- the rate of a processed token event is the one it has -/
  tokenRate : ∀ e ∈ db'.tokens, ∀ x, e.processed = some x → e.rate db'.tokenRates = some x
  /-- the balance and the flag of each tenant that is touched -/
  touched : ∀ tenant, affected (tickBatch db) (tokenBatch db) tenant = true → ∃ q, db'.quota tenant = some q ∧
    q.balanceCents = creditsOf db'.credits tenant - q.usedCents ∧
    (q.quotaExceeded = true ↔ creditsOf db'.credits tenant - q.usedCents ≤ q.thresholdCents)
  /-- the rows that are taken were not processed -/
  fresh : (∀ t ∈ tickBatch db, t.processed = none) ∧ ∀ e ∈ tokenBatch db, e.processed = none
  /-- the rows that were processed are as they were -/
  kept : (∀ t ∈ db.ticks, t.processed ≠ none → t ∈ db'.ticks) ∧ ∀ e ∈ db.tokens, e.processed ≠ none → e ∈ db'.tokens
  /-- at most so many rows of a kind -/
  limit : (tickBatch db).length ≤ batchLimit ∧ (tokenBatch db).length ≤ batchLimit

theorem Booked.run (h : Booked db) (hk : RatesKept db) : RunOk db (updateAndCheckQuota db) := by
  have hb : Batches (Billing.insertTenants db) _ (tickBatch (Billing.insertTenants db)) _ := batches_run
  have hbooked := h.insertTenants.settle hb
  have hkept : RatesKept (Billing.insertTenants db) := ⟨hk.tick, hk.token⟩
  have hrates := hkept.settle h.insertTenants hb
  refine ⟨hbooked.account, hbooked.tickTenant, hbooked.tokenTenant, hrates.tick, hrates.token, ?_,
    ⟨fun t ht => (tickBatch_new ht).2, fun e he => (tokenBatch_new he).2.1⟩, ⟨?_, ?_⟩,
    List.length_take_le _ _, List.length_take_le _ _⟩
  · intro tenant haff
    obtain ⟨q, hq⟩ : ∃ q, (Billing.insertTenants db).quota tenant = some q := by
      rw [← Option.isSome_iff_exists]
      rcases Bool.or_eq_true_iff.mp haff with hany | hany
      · obtain ⟨t, ht, heq⟩ := List.any_eq_true.mp hany
        exact beq_iff_eq.mp heq ▸ hb.tickTenant t ht
      · obtain ⟨e, he, heq⟩ := List.any_eq_true.mp hany
        exact beq_iff_eq.mp heq ▸ hb.tokenTenant e he
    have hnew := quota_settle hq haff
    exact ⟨_, hnew, rfl, decide_eq_true_iff⟩
  · intro t ht hproc
    refine List.mem_map.mpr ⟨t, ht, ?_⟩
    rcases markTick_cases h.insertTenants hb ht with heq | ⟨hmem, -⟩
    · exact heq
    · exact absurd (tickBatch_new hmem).2 hproc
  · intro e he hproc
    refine List.mem_map.mpr ⟨e, he, ?_⟩
    rcases markToken_cases h.insertTenants hb he with heq | ⟨hmem, -⟩
    · exact heq
    · exact absurd (tokenBatch_new hmem).2.1 hproc

/-- **Exact debits.** After every run of a history, each tenant's totals and carries are
what its processed rows amount to, the balance and the flag of each tenant that is
touched follow, and no row is processed twice. So the totals depend on the processed
rows only, not on the batches they were in. -/
theorem run_of_reach (h : Reach Db.next NewDb OpOk db) : RunOk db (updateAndCheckQuota db) ∧
    ∀ tenant q, (updateAndCheckQuota db).quota tenant = some q →
      (q.inferenceUsedCents = tickDebits false tenant (updateAndCheckQuota db).ticks / tickDivisor ∧
        q.inferenceCarryNumer = tickDebits false tenant (updateAndCheckQuota db).ticks % tickDivisor) ∧
      (q.standbyUsedCents = tickDebits true tenant (updateAndCheckQuota db).ticks / tickDivisor ∧
        q.standbyCarryNumer = tickDebits true tenant (updateAndCheckQuota db).ticks % tickDivisor) ∧
      (q.tokenUsedCents = tokenDebits tenant (updateAndCheckQuota db).tokens / tokenDivisor ∧
        q.tokenCarryNumer = tokenDebits tenant (updateAndCheckQuota db).tokens % tokenDivisor) := by
  have hinv : Booked db ∧ RatesKept db := h.invariant (I := fun db => Booked db ∧ RatesKept db)
    (fun _ hnew => ⟨hnew.booked, hnew.ratesKept⟩)
    fun _ _ _ hs hok hnext => ⟨hs.1.next hok.1 hnext, hs.2.next hs.1 hok.2 hnext⟩
  have hrun := hinv.1.run hinv.2
  refine ⟨hrun, fun tenant q hq => ?_⟩
  have hacc := hrun.account tenant q hq
  exact ⟨hacc.inference.eq_div_mod, hacc.standby.eq_div_mod, hacc.token.eq_div_mod⟩

namespace Sample

/-- A rate of 850 cents. -/
def priced : Db := { rates := [{ standby := false, rateCentsPerHour := 850, effectiveFrom := 0 }] }

/-- A tick of one GPU and a minute. -/
def minute : UsageTick :=
  { id := 0, tenant := "t", gpuCount := 1, intervalMs := 60000, usageType := .request, tickTime := 10 }

/-- One of five minutes. -/
def fiveMinutes : UsageTick := { minute with id := 1, intervalMs := 300000 }

theorem newDb_priced : NewDb priced := by
  refine ⟨rfl, rfl, ⟨fun r hr => ?_, fun r hr => by cases hr⟩, fun tenant q hq => by cases hq⟩
  rw [List.mem_singleton.mp hr]
  decide

end Sample

/-- A minute and five minutes at 850 cents for an hour, in two batches: 14 cents and a carry,
which makes the 70 cents of the second batch 71. -/
theorem run_of_minute : ((Sample.priced.next (.tick Sample.minute)).bind fun db =>
      (db.next .run).bind fun db => (db.next (.tick Sample.fiveMinutes)).map fun db' =>
        ((db.quota "t").map fun q => (q.inferenceUsedCents, q.inferenceCarryNumer),
          ((updateAndCheckQuota db').quota "t").map fun q => (q.inferenceUsedCents, q.inferenceCarryNumer))) =
        some (some (14, 600000), some (85, 0)) ∧
    ∀ db₁ db₂ db₃, Sample.priced.next (.tick Sample.minute) = some db₁ → db₁.next .run = some db₂ →
      db₂.next (.tick Sample.fiveMinutes) = some db₃ → RunOk db₃ (updateAndCheckQuota db₃) := by
  refine ⟨by decide +kernel, fun db₁ db₂ db₃ h₁ h₂ h₃ => ?_⟩
  have hok₁ : OpOk Sample.priced (.tick Sample.minute) := ⟨⟨by decide, by decide⟩, trivial⟩
  have hreach := Reach.step (Reach.init Sample.newDb_priced) hok₁ h₁
  obtain rfl := Option.some.inj h₁
  have hrun := Reach.step (c := Op.run) hreach ⟨trivial, trivial⟩ h₂
  obtain rfl := Option.some.inj h₂
  exact (run_of_reach (Reach.step (c := Op.tick Sample.fiveMinutes) hrun ⟨⟨by decide, by decide⟩, trivial⟩ h₃)).1

end Inferx.Billing
