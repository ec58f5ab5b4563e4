import Mathlib.Algebra.BigOperators.Ring.List
import Mathlib.Data.Rat.Cast.Order
import Mathlib.Tactic.FieldSimp
import Mathlib.Tactic.Linarith
import Inferx.Billing.Hourly

/-!
# From cents to microcents

The token rates were once cents for a million tokens, and the amounts of token events were
divided by a million. `migrate_token_billing.sql` gives each rate its columns in microcents,
a million times as much, and the scripts that come with it divide by a million times as much.
The carry of a tenant and the amounts of an hourly row stay as they are, in the unit that was
used before.

In the older tables a `TokenRate` of the model holds cents.
-/

namespace Inferx.Billing

/-! ## The older scripts -/

/-- Cents for a million tokens. -/
def centsDivisor : ℤ := 1000000

/-- `calc` and `updated` of the older `update-and-check-quota.sql`. -/
def calcQuotaCents (q : TenantQuota) (inference standby token credits : ℤ) : TenantQuota :=
  let inferenceUsed := q.inferenceUsedCents + (q.inferenceCarryNumer + inference).tdiv tickDivisor
  let standbyUsed := q.standbyUsedCents + (q.standbyCarryNumer + standby).tdiv tickDivisor
  let tokenUsed := q.tokenUsedCents + (q.tokenCarryNumer + token).tdiv centsDivisor
  let used := inferenceUsed + standbyUsed + tokenUsed
  { q with
    inferenceUsedCents := inferenceUsed
    standbyUsedCents := standbyUsed
    tokenUsedCents := tokenUsed
    usedCents := used
    inferenceCarryNumer := (q.inferenceCarryNumer + inference).tmod tickDivisor
    standbyCarryNumer := (q.standbyCarryNumer + standby).tmod tickDivisor
    tokenCarryNumer := (q.tokenCarryNumer + token).tmod centsDivisor
    balanceCents := credits - used
    quotaExceeded := decide (credits - used ≤ q.thresholdCents) }

/-- Step 2 of a run of the older script. -/
def settleCents (db : Db) (ticks : List UsageTick) (tokens : List TokenEvent) : Db :=
  book db db.rates db.tokenRates ticks tokens fun tenant => (db.quota tenant).map fun q =>
    if affected ticks tokens tenant then
      calcQuotaCents q (tickAgg db.rates false tenant ticks) (tickAgg db.rates true tenant ticks)
        (tokenAgg db.tokenRates tenant tokens) (creditsOf db.credits tenant)
    else q

/-- The older `update-and-check-quota.sql`. -/
def updateAndCheckQuotaCents (db : Db) : Db :=
  settleCents (insertTenants db) (tickBatch (insertTenants db)) (tokenBatch (insertTenants db))

/-- One operation, before the migration. -/
def Db.nextCents (db : Db) : Op → Option Db
  | .run => some (updateAndCheckQuotaCents db)
  | op => db.next op

/-! ## The migration -/

/-- A row of `TokenRate`, with the columns of both schemas. -/
structure RateRow where
  modelSlug : Option String := none
  effectiveFrom : ℤ
  effectiveTo : Option ℤ := none
  tenant : Option String := none
  /-- `cents_per_million_input`, `…_output` and `…_cached` -/
  centsInput : ℤ := 0
  centsOutput : ℤ := 0
  centsCached : ℤ := 0
  /-- `microcents_per_million_input`, `…_output` and `…_cached`, or null -/
  input : Option ℤ := none
  output : Option ℤ := none
  cached : Option ℤ := none

/-- What `GetTokenRateCents` reads of a row. -/
def RateRow.cents (r : RateRow) : TokenRate where
  modelSlug := r.modelSlug
  input := r.centsInput
  output := r.centsOutput
  cached := r.centsCached
  effectiveFrom := r.effectiveFrom
  effectiveTo := r.effectiveTo
  tenant := r.tenant

/-- What `GetTokenRateMicrocents` reads of a row whose columns are not null. -/
def RateRow.microcents (r : RateRow) : TokenRate where
  modelSlug := r.modelSlug
  input := r.input.getD 0
  output := r.output.getD 0
  cached := r.cached.getD 0
  effectiveFrom := r.effectiveFrom
  effectiveTo := r.effectiveTo
  tenant := r.tenant

/-- The billing database, with its token rates as rows of both schemas. -/
structure Tables where
  rows : List RateRow
  /-- `TokenUsageHourly` -/
  hourly : List HourlyRow
  /-- the other tables -/
  rest : Db

/-- The database as the older scripts read it. -/
def Tables.old (b : Tables) : Db := { b.rest with tokenRates := b.rows.map RateRow.cents }

/-- The database as the scripts read it that come with the migration. -/
def Tables.new (b : Tables) : Db := { b.rest with tokenRates := b.rows.map RateRow.microcents }

/-- A database of the older schema: no column is in microcents. -/
structure OldTables extends Tables where
  empty : ∀ r ∈ rows, r.input = none ∧ r.output = none ∧ r.cached = none

/-- Is it a `BIGINT`? -/
def fitsBigint (x : ℤ) : Bool := decide (-9223372036854775808 ≤ x ∧ x < 9223372036854775808)

/-- `COALESCE(microcents, cents * 1000000)`; an overflow is an error. -/
def coalesceMicrocents (microcents : Option ℤ) (cents : ℤ) : Option ℤ :=
  match microcents with
  | some x => some x
  | none => if fitsBigint (cents * 1000000) then some (cents * 1000000) else none

/-- `UPDATE TokenRate`, on a row. -/
def migrateRow (r : RateRow) : Option RateRow :=
  if r.input.isNone || r.output.isNone || r.cached.isNone then do
    let input ← coalesceMicrocents r.input r.centsInput
    let output ← coalesceMicrocents r.output r.centsOutput
    let cached ← coalesceMicrocents r.cached r.centsCached
    return { r with input := some input, output := some output, cached := some cached }
  else some r

/-- `migrate_token_billing.sql`, or `none` when it stops at an error. The columns of
`TenantQuota` and the tables are there, and the amounts of `TokenUsageHourly` change their type
only. -/
def migrate (b : Tables) : Option Tables :=
  (b.rows.mapM migrateRow).map fun rows => { b with rows }

/-! ## What is promised -/

/-- What a tenant owes for tokens, in cents. -/
def TenantQuota.tokenCharge (divisor : ℤ) (q : TenantQuota) : ℚ :=
  q.tokenUsedCents + q.tokenCarryNumer / divisor

/-- What an hourly row says is owed, in cents. -/
def HourlyRow.charge (divisor : ℤ) (r : HourlyRow) : ℚ := r.numer / divisor

/-- What an event costs, in cents. `GetTokenRateCents` is the query of `GetTokenRateMicrocents`
on the columns in cents, so both find a rate by `TokenEvent.rate`. -/
def TokenEvent.price (divisor : ℤ) (rates : List TokenRate) (e : TokenEvent) : Option ℚ :=
  (e.rate rates).map fun r => (e.numer r : ℚ) / divisor

/-- The totals agree before and after the migration, and so does the exact charge for tokens. -/
def SameQuota (q q' : TenantQuota) : Prop :=
  q' = { q with tokenCarryNumer := q'.tokenCarryNumer } ∧
    q'.tokenCharge tokenDivisor = q.tokenCharge centsDivisor

/-- A rate in microcents for one in cents. -/
def TokenRate.toMicrocents (r : TokenRate) : TokenRate :=
  { r with input := r.input * 1000000, output := r.output * 1000000, cached := r.cached * 1000000 }

/-- An operation after the migration, for one before it. -/
def Op.toMicrocents : Op → Op
  | .tokenRate r => .tokenRate r.toMicrocents
  | op => op

/-- The columns in microcents are not null. -/
def Tables.NotNull (b : Tables) : Prop :=
  ∀ r ∈ b.rows, r.input.isSome ∧ r.output.isSome ∧ r.cached.isSome

/-- The migration from `b` to `m` preserves what is owed. -/
structure Preserved (b m : Tables) : Prop where
  charges : ∀ tenant, Option.Rel SameQuota (b.old.quota tenant) (m.new.quota tenant)
  hourly : m.hourly.map (HourlyRow.charge tokenDivisor) = b.hourly.map (HourlyRow.charge centsDivisor)
  prices : ∀ e : TokenEvent, e.price tokenDivisor m.new.tokenRates = e.price centsDivisor b.old.tokenRates
  /-- Whatever happens next, the scripts agree. -/
  continues : ∀ (ops : List Op) (old : Db), ops.foldlM Db.nextCents b.old = some old →
    ∃ new, (ops.map Op.toMicrocents).foldlM Db.next m.new = some new ∧
      ∀ tenant, Option.Rel SameQuota (old.quota tenant) (new.quota tenant)
  /-- The migration can be run again at any time. -/
  again : m.NotNull ∧ ∀ later : Tables, later.NotNull → migrate later = some later

/-- The rates of a row fit their columns in microcents. -/
def RateRow.Fits (r : RateRow) : Prop :=
  fitsBigint (r.centsInput * 1000000) = true ∧ fitsBigint (r.centsOutput * 1000000) = true ∧
    fitsBigint (r.centsCached * 1000000) = true

/-- Nothing is kept in the unit of before. -/
structure Clean (b : Tables) : Prop where
  fits : ∀ r ∈ b.rows, r.Fits
  carry : ∀ tenant q, b.rest.quota tenant = some q → q.tokenCarryNumer = 0
  hourly : ∀ r ∈ b.hourly, r.numer = 0

/-! ## Rates -/

theorem firstBy_map {α β : Type} {before : α → α → Bool} {before' : β → β → Bool} {f : α → β}
    (h : ∀ a b, before' (f a) (f b) = before a b) (l : List α) :
    firstBy before' (l.map f) = (firstBy before l).map f := by
  unfold firstBy
  rw [List.foldl_map, ← Option.map_none (f := f)]
  refine List.foldl_hom (Option.map f) fun acc a => ?_
  cases acc with
  | none => rfl
  | some b =>
    simp only [Option.map_some, h]
    split <;> rfl

/-- An event finds the rate in microcents that was made of the one in cents. -/
theorem rate_toMicrocents (e : TokenEvent) (rates : List TokenRate) :
    e.rate (rates.map TokenRate.toMicrocents) = (e.rate rates).map TokenRate.toMicrocents := by
  unfold TokenEvent.rate getTokenRateMicrocents
  rw [List.filter_map, firstBy_map fun _ _ => rfl]
  rfl

theorem numer_toMicrocents (e : TokenEvent) (r : TokenRate) :
    e.numer r.toMicrocents = e.numer r * 1000000 := by
  have hinput : e.inputTokens r.toMicrocents = e.inputTokens r := by
    unfold TokenEvent.inputTokens TokenRate.toMicrocents
    simp
  unfold TokenEvent.numer
  rw [hinput]
  simp only [TokenRate.toMicrocents]
  ring

theorem price_toMicrocents (e : TokenEvent) (rates : List TokenRate) :
    e.price tokenDivisor (rates.map TokenRate.toMicrocents) = e.price centsDivisor rates := by
  unfold TokenEvent.price
  rw [rate_toMicrocents, Option.map_map]
  congr 1
  funext r
  simp only [Function.comp_apply, numer_toMicrocents, tokenDivisor, centsDivisor]
  push_cast
  ring

theorem tokenAgg_toMicrocents (rates : List TokenRate) (tenant : String) (batch : List TokenEvent) :
    tokenAgg (rates.map TokenRate.toMicrocents) tenant batch = tokenAgg rates tenant batch * 1000000 := by
  unfold tokenAgg
  rw [← List.sum_map_mul_right]
  refine congrArg List.sum (List.map_congr_left fun e _ => ?_)
  rw [rate_toMicrocents, Option.map_map]
  rcases e.rate rates with _ | r
  · rfl
  · exact numer_toMicrocents e r

/-! ## Totals -/

/-- Totals whose carry is in the finer unit. -/
def TenantQuota.toMicrocents (q : TenantQuota) : TenantQuota :=
  { q with tokenCarryNumer := q.tokenCarryNumer * 1000000 }

theorem sameQuota_toMicrocents (q : TenantQuota) : SameQuota q q.toMicrocents := by
  refine ⟨rfl, ?_⟩
  simp only [TenantQuota.tokenCharge, TenantQuota.toMicrocents, tokenDivisor, centsDivisor]
  push_cast
  ring

/-- **The same calculation** in the finer unit. -/
theorem calcQuota_toMicrocents (q : TenantQuota) (inference standby token credits : ℤ) :
    calcQuota q.toMicrocents inference standby (token * 1000000) credits =
      (calcQuotaCents q inference standby token credits).toMicrocents := by
  have hsum : q.tokenCarryNumer * 1000000 + token * 1000000 = (q.tokenCarryNumer + token) * 1000000 := by
    ring
  have hdivisor : tokenDivisor = centsDivisor * 1000000 := rfl
  have hmod : ∀ x : ℤ, (x * 1000000).tmod (centsDivisor * 1000000) = x.tmod centsDivisor * 1000000 := by
    intro x
    rw [mul_comm x, mul_comm centsDivisor, Int.mul_tmod_mul_of_pos _ _ (by decide), mul_comm]
  unfold calcQuota calcQuotaCents TenantQuota.toMicrocents
  simp only [hsum, hdivisor, Int.mul_tdiv_mul_of_pos_left _ _ (by decide : (0 : ℤ) < 1000000),
    hmod]

/-! ## Runs -/

/-- Two rows of one event; it does not matter at which rate it was billed. -/
def SameEvent (e e' : TokenEvent) : Prop :=
  e' = { e with processed := e'.processed } ∧ e'.processed.isSome = e.processed.isSome

/-- `n` is `o` with the rates and the carries in the finer unit. -/
structure Finer (o n : Db) : Prop where
  ticks : n.ticks = o.ticks
  credits : n.credits = o.credits
  rates : n.rates = o.rates
  tokenRates : n.tokenRates = o.tokenRates.map TokenRate.toMicrocents
  tokens : List.Forall₂ SameEvent o.tokens n.tokens
  quota : ∀ tenant, n.quota tenant = (o.quota tenant).map TenantQuota.toMicrocents

theorem SameEvent.rate {e e' : TokenEvent} (h : SameEvent e e') (rates : List TokenRate) :
    e'.rate rates = e.rate rates := by
  rw [h.1]
  rfl

theorem SameEvent.eq {e e' : TokenEvent} (h : SameEvent e e') (hnone : e.processed = none) : e' = e := by
  have hnone' : e'.processed = none := by
    have hsome := h.2
    rw [hnone, Option.isSome_none] at hsome
    exact Option.not_isSome_iff_eq_none.mp (Bool.eq_false_iff.mp hsome)
  rw [h.1, hnone', ← hnone]

/-- The rows of `pick` that are not processed are the same rows. -/
theorem filter_same {p p' : TokenEvent → Bool} {l l' : List TokenEvent}
    (h : List.Forall₂ SameEvent l l') (hp : ∀ e e', SameEvent e e' → p' e' = p e)
    (hnone : ∀ e, p e = true → e.processed = none) : l'.filter p' = l.filter p := by
  induction h with
  | nil => rfl
  | @cons e e' l l' he _ ih =>
    rw [List.filter_cons, List.filter_cons, hp e e' he, ih]
    split
    next hpe => rw [he.eq (hnone e hpe)]
    next => rfl

theorem any_same {p : TokenEvent → Bool} {l l' : List TokenEvent} (h : List.Forall₂ SameEvent l l')
    (hp : ∀ e e', SameEvent e e' → p e' = p e) : l'.any p = l.any p := by
  induction h with
  | nil => rfl
  | cons he _ ih => rw [List.any_cons, List.any_cons, hp _ _ he, ih]

theorem SameEvent.isNone {e e' : TokenEvent} (h : SameEvent e e') :
    e'.processed.isNone = e.processed.isNone := by
  rw [← Option.not_isSome, ← Option.not_isSome, h.2]

theorem SameEvent.callerTenant {e e' : TokenEvent} (h : SameEvent e e') :
    e'.callerTenant = e.callerTenant := by
  rw [h.1]

theorem SameEvent.id {e e' : TokenEvent} (h : SameEvent e e') :
    e'.gatewayRequestId = e.gatewayRequestId := by
  rw [h.1]

namespace Finer

variable {o n : Db} (h : Finer o n)

include h

theorem tokenBatch : Inferx.Billing.tokenBatch n = Inferx.Billing.tokenBatch o := by
  unfold Inferx.Billing.tokenBatch pick
  rw [filter_same h.tokens]
  · intro e e' he
    rw [he.isNone, he.rate, h.tokenRates, rate_toMicrocents, Option.isSome_map]
  · intro e hp
    rw [Bool.and_eq_true] at hp
    exact Option.isNone_iff_eq_none.mp hp.1

theorem tickBatch : Inferx.Billing.tickBatch n = Inferx.Billing.tickBatch o := by
  unfold Inferx.Billing.tickBatch
  rw [h.ticks]

theorem known (tenant : String) : Inferx.Billing.known n tenant = Inferx.Billing.known o tenant := by
  unfold Inferx.Billing.known
  rw [h.ticks, h.credits, any_same h.tokens fun e e' he => by rw [he.isNone, he.callerTenant]]

theorem insertTenants : Finer (Inferx.Billing.insertTenants o) (Inferx.Billing.insertTenants n) where
  ticks := h.ticks
  credits := h.credits
  rates := h.rates
  tokenRates := h.tokenRates
  tokens := h.tokens
  quota tenant := by
    simp only [Inferx.Billing.insertTenants, h.known]
    split
    · rw [h.quota]
      rcases o.quota tenant with _ | q
      · rfl
      · rfl
    · exact h.quota tenant

/-- The marks on the events of a batch. -/
theorem markToken (ids : List String) : List.Forall₂ SameEvent
    (o.tokens.map (Inferx.Billing.markToken o.tokenRates ids))
    (n.tokens.map (Inferx.Billing.markToken n.tokenRates ids)) := by
  refine List.forall₂_map_left_iff.mpr (List.forall₂_map_right_iff.mpr (h.tokens.imp fun e e' he => ?_))
  unfold Inferx.Billing.markToken
  rw [he.id]
  split
  · refine ⟨by rw [he.1], ?_⟩
    rw [he.rate, h.tokenRates, rate_toMicrocents]
    exact Option.isSome_map ..
  · exact he

theorem settle (ticks : List UsageTick) (tokens : List TokenEvent) :
    Finer (settleCents o ticks tokens) (Inferx.Billing.settle n ticks tokens) where
  ticks := by
    simp only [settleCents, Inferx.Billing.settle, book, h.ticks, h.rates]
  credits := h.credits
  rates := h.rates
  tokenRates := h.tokenRates
  tokens := h.markToken _
  quota tenant := by
    simp only [settleCents, Inferx.Billing.settle, book, h.quota, Option.map_map]
    congr 1
    funext q
    simp only [Function.comp_apply, h.rates, h.credits, h.tokenRates, tokenAgg_toMicrocents]
    split
    · exact calcQuota_toMicrocents ..
    · rfl

theorem updateAndCheckQuota :
    Finer (updateAndCheckQuotaCents o) (Inferx.Billing.updateAndCheckQuota n) := by
  unfold updateAndCheckQuotaCents Inferx.Billing.updateAndCheckQuota
  rw [h.insertTenants.tickBatch, h.insertTenants.tokenBatch]
  exact h.insertTenants.settle _ _

/-- **One operation** keeps the two databases in step. -/
theorem next {op : Op} {o' : Db} (hnext : o.nextCents op = some o') :
    ∃ n', n.next op.toMicrocents = some n' ∧ Finer o' n' := by
  cases op with
  | tick t =>
    cases hnext
    exact ⟨_, rfl, { h with ticks := by rw [h.ticks] }⟩
  | token e =>
    have hany : (n.tokens.any fun e' => e'.gatewayRequestId == e.gatewayRequestId) =
        o.tokens.any fun e' => e'.gatewayRequestId == e.gatewayRequestId :=
      any_same h.tokens fun _ _ he => by rw [he.id]
    simp only [Op.toMicrocents, Db.next, Db.nextCents, hany] at hnext ⊢
    split at hnext
    next htaken =>
      cases hnext
      exact ⟨n, if_pos htaken, h⟩
    next hnew =>
      cases hnext
      refine ⟨_, if_neg hnew, { h with tokens := ?_ }⟩
      exact List.rel_append h.tokens (.cons ⟨rfl, rfl⟩ .nil)
  | credit c =>
    cases hnext
    refine ⟨_, rfl, ?_⟩
    unfold addTenantCredit
    rw [h.credits]
    split
    · exact h
    · exact { h with credits := rfl }
  | rate r =>
    cases hnext
    exact ⟨_, rfl, { h with rates := by rw [h.rates] }⟩
  | tokenRate r =>
    cases hnext
    exact ⟨_, rfl, { h with tokenRates := by rw [h.tokenRates, List.map_append]; rfl }⟩
  | run =>
    cases hnext
    exact ⟨_, rfl, h.updateAndCheckQuota⟩

/-- **A whole history**. -/
theorem run {ops : List Op} {o' : Db} (hrun : ops.foldlM Db.nextCents o = some o') :
    ∃ n', (ops.map Op.toMicrocents).foldlM Db.next n = some n' ∧ Finer o' n' := by
  induction ops generalizing o n with
  | nil =>
    cases hrun
    exact ⟨n, rfl, h⟩
  | cons op ops ih =>
    rw [List.foldlM_cons] at hrun
    obtain ⟨o₁, hnext, hrest⟩ := Option.bind_eq_some_iff.mp hrun
    obtain ⟨n₁, hnext', h₁⟩ := h.next hnext
    obtain ⟨n', hrest', h'⟩ := ih h₁ hrest
    refine ⟨n', ?_, h'⟩
    rw [List.map_cons, List.foldlM_cons, hnext']
    exact hrest'

end Finer

/-! ## The migration -/

/-- A row with its columns in microcents. -/
def RateRow.fill (r : RateRow) : RateRow :=
  { r with
    input := some (r.centsInput * 1000000)
    output := some (r.centsOutput * 1000000)
    cached := some (r.centsCached * 1000000) }

/-- A row of the older schema is filled, if its rates fit. -/
theorem migrateRow_iff {r r' : RateRow} (h : r.input = none ∧ r.output = none ∧ r.cached = none) :
    migrateRow r = some r' ↔ r.Fits ∧ r' = r.fill := by
  unfold migrateRow RateRow.Fits RateRow.fill
  rw [h.1, h.2.1, h.2.2]
  simp only [Option.isNone_none, Bool.or_self, if_true, coalesceMicrocents, Option.bind_eq_bind,
    Option.bind_eq_some_iff, Option.ite_none_right_eq_some, Option.some.injEq, Option.pure_def]
  constructor
  · rintro ⟨_, ⟨hi, rfl⟩, _, ⟨ho, rfl⟩, _, ⟨hc, rfl⟩, rfl⟩
    exact ⟨⟨hi, ho, hc⟩, rfl⟩
  · rintro ⟨⟨hi, ho, hc⟩, rfl⟩
    exact ⟨_, ⟨hi, rfl⟩, _, ⟨ho, rfl⟩, _, ⟨hc, rfl⟩, rfl⟩

theorem mapM_migrateRow_iff {rows rows' : List RateRow}
    (h : ∀ r ∈ rows, r.input = none ∧ r.output = none ∧ r.cached = none) :
    rows.mapM migrateRow = some rows' ↔ (∀ r ∈ rows, r.Fits) ∧ rows' = rows.map RateRow.fill := by
  induction rows generalizing rows' with
  | nil => simp [eq_comm]
  | cons r rows ih =>
    have hrows : ∀ {rest}, rows.mapM migrateRow = some rest ↔
        (∀ r ∈ rows, r.Fits) ∧ rest = rows.map RateRow.fill :=
      ih fun x hx => h x (List.mem_cons_of_mem _ hx)
    rw [List.mapM_cons, List.forall_mem_cons]
    simp only [Option.bind_eq_bind, Option.bind_eq_some_iff, migrateRow_iff (h r List.mem_cons_self),
      hrows, Option.pure_def, Option.some.injEq]
    constructor
    · rintro ⟨_, ⟨hr, rfl⟩, _, ⟨hrest, rfl⟩, rfl⟩
      exact ⟨⟨hr, hrest⟩, rfl⟩
    · rintro ⟨⟨hr, hrest⟩, rfl⟩
      exact ⟨_, ⟨hr, rfl⟩, _, ⟨hrest, rfl⟩, rfl⟩

theorem migrate_iff {d : OldTables} {m : Tables} : migrate d.toTables = some m ↔
    (∀ r ∈ d.rows, r.Fits) ∧ m = { d.toTables with rows := d.rows.map RateRow.fill } := by
  unfold migrate
  simp only [Option.map_eq_some_iff, mapM_migrateRow_iff d.empty]
  constructor
  · rintro ⟨_, ⟨hfits, rfl⟩, rfl⟩
    exact ⟨hfits, rfl⟩
  · rintro ⟨hfits, rfl⟩
    exact ⟨_, ⟨hfits, rfl⟩, rfl⟩

/-- A row whose columns are not null stays as it is. -/
theorem migrateRow_self {r : RateRow} (h : r.input.isSome ∧ r.output.isSome ∧ r.cached.isSome) :
    migrateRow r = some r := by
  unfold migrateRow
  rw [← Option.not_isSome, ← Option.not_isSome, ← Option.not_isSome, h.1, h.2.1, h.2.2]
  rfl

/-- **Once migrated, always migrated.** -/
theorem migrate_self {b : Tables} (h : b.NotNull) : migrate b = some b := by
  unfold migrate
  suffices ∀ rows : List RateRow, (∀ r ∈ rows, migrateRow r = some r) → rows.mapM migrateRow = some rows by
    rw [this b.rows fun r hr => migrateRow_self (h r hr)]
    rfl
  intro rows hrows
  induction rows with
  | nil => rfl
  | cons r rows ih =>
    rw [List.mapM_cons, hrows r List.mem_cons_self, ih fun x hx => hrows x (List.mem_cons_of_mem _ hx)]
    rfl

theorem notNull_fill (rows : List RateRow) (b : Tables) :
    { b with rows := rows.map RateRow.fill : Tables }.NotNull := by
  intro r hr
  obtain ⟨r', -, rfl⟩ := List.mem_map.mp hr
  exact ⟨rfl, rfl, rfl⟩

theorem SameEvent.refl (e : TokenEvent) : SameEvent e e := ⟨rfl, rfl⟩

/-- Filled tables without a carry are the older ones, in the finer unit. -/
theorem finer_fill {b : Tables} (h : ∀ tenant q, b.rest.quota tenant = some q → q.tokenCarryNumer = 0) :
    Finer b.old { b with rows := b.rows.map RateRow.fill : Tables }.new where
  ticks := rfl
  credits := rfl
  rates := rfl
  tokenRates := by
    simp only [Tables.new, Tables.old, List.map_map]
    rfl
  tokens := List.forall₂_same.mpr fun e _ => SameEvent.refl e
  quota tenant := by
    change b.rest.quota tenant = (b.rest.quota tenant).map _
    rcases hq : b.rest.quota tenant with _ | q
    · rfl
    · rw [Option.map_some, TenantQuota.toMicrocents, h tenant q hq, zero_mul, ← h tenant q hq]

theorem Finer.sameQuota {o n : Db} (h : Finer o n) (tenant : String) :
    Option.Rel SameQuota (o.quota tenant) (n.quota tenant) := by
  rw [h.quota]
  rcases o.quota tenant with _ | q
  · exact .none
  · exact .some (sameQuota_toMicrocents q)

/-- A charge that is the same in both units is nothing. -/
theorem eq_zero_of_units {x : ℤ} (h : (x : ℚ) / tokenDivisor = x / centsDivisor) : x = 0 := by
  have hx : (x : ℚ) = 0 := by
    simp only [tokenDivisor, centsDivisor] at h
    push_cast at h
    linarith
  exact_mod_cast hx

/-- **When does the migration preserve what is owed?** -/
theorem preserved_iff (d : OldTables) :
    (∃ m, migrate d.toTables = some m ∧ Preserved d.toTables m) ↔ Clean d.toTables := by
  constructor
  · rintro ⟨m, hm, hp⟩
    obtain ⟨hfits, rfl⟩ := migrate_iff.mp hm
    refine ⟨hfits, fun tenant q hq => ?_, fun r hr => ?_⟩
    · have hcharge := hp.charges tenant
      simp only [Tables.old, Tables.new, hq] at hcharge
      obtain ⟨-, hsame⟩ := Option.rel_some_some.mp hcharge
      unfold TenantQuota.tokenCharge at hsame
      exact eq_zero_of_units (add_left_cancel hsame)
    · exact eq_zero_of_units (List.map_inj_left.mp hp.hourly r hr)
  · rintro ⟨hfits, hcarry, hhourly⟩
    refine ⟨_, migrate_iff.mpr ⟨hfits, rfl⟩, ?_⟩
    have hfiner := finer_fill hcarry
    refine ⟨hfiner.sameQuota, List.map_congr_left fun r hr => ?_, fun e => ?_, fun ops old hrun => ?_,
      notNull_fill _ _, fun later => migrate_self⟩
    · unfold HourlyRow.charge
      rw [hhourly r hr, Int.cast_zero, zero_div, zero_div]
    · rw [hfiner.tokenRates]
      exact price_toMicrocents e _
    · obtain ⟨new, hnew, h⟩ := hfiner.run hrun
      exact ⟨new, hnew, h.sameQuota⟩

/-- A tenant that owes half a cent. -/
def halfCent : OldTables where
  rows := []
  hourly := []
  rest := { quota := fun tenant => if tenant = "t" then some { tokenCarryNumer := 500000 } else none }
  empty := fun _ h => absurd h List.not_mem_nil

theorem half_cent_forgiven : ¬ ∀ (d : OldTables) (m : Tables), migrate d.toTables = some m →
    Preserved d.toTables m := by
  intro h
  have hcharge := (h halfCent _ rfl).charges "t"
  have hsame := (Option.rel_some_some.mp hcharge).2
  norm_num [TenantQuota.tokenCharge, tokenDivisor, centsDivisor] at hsame

end Inferx.Billing
