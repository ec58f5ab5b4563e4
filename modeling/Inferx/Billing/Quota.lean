import Mathlib.Data.List.Sort
import Inferx.Lib.Carry

/-!
# The quota of a tenant

Usage comes in as GPU ticks and token events, and credits come in as payments. A run
of `update-and-check-quota.sql` takes a batch of the rows that are not processed
yet, prices each, adds the amounts of a tenant to its totals and marks the rows. A
total is kept in cents, with a carry in the unit of the amounts.

Amounts are integers, and division truncates as in SQL. Times are integers. In place
of the time a row was processed stands the rate it was billed at.
-/

namespace Inferx.Billing

/-! ## Tables -/

/-- `usage_type` of a tick. -/
inductive UsageType where
  | request
  | snapshot
  | standby
  deriving DecidableEq

/-- A row of `BillingRate`. -/
structure BillingRate where
  /-- `usage_type` is 'standby', else it is 'inference' -/
  standby : Bool
  /-- cents for a GPU and an hour -/
  rateCentsPerHour : ℤ
  /-- from when -/
  effectiveFrom : ℤ
  /-- to when -/
  effectiveTo : Option ℤ := none
  /-- for which tenant, or for all -/
  tenant : Option String := none
  deriving DecidableEq

/-- A row of `TokenRate`. -/
structure TokenRate where
  /-- for which model, or for all -/
  modelSlug : Option String := none
  /-- `microcents_per_million_input` -/
  input : ℤ
  /-- `microcents_per_million_output` -/
  output : ℤ
  /-- `microcents_per_million_cached` -/
  cached : ℤ := 0
  /-- from when -/
  effectiveFrom : ℤ
  /-- to when -/
  effectiveTo : Option ℤ := none
  /-- for which tenant, or for all -/
  tenant : Option String := none
  deriving DecidableEq

/-- A row of `UsageTick`. -/
structure UsageTick where
  /-- its key -/
  id : ℕ
  /-- who pays -/
  tenant : String
  /-- GPUs -/
  gpuCount : ℤ
  /-- milliseconds -/
  intervalMs : ℤ
  /-- what it bills -/
  usageType : UsageType
  /-- when it was emitted -/
  tickTime : ℤ
  /-- the rate that was found when it was processed -/
  processed : Option (Option ℤ) := none
  deriving DecidableEq

/-- A row of `TokenUsageEvent`. -/
structure TokenEvent where
  /-- its key -/
  gatewayRequestId : String
  /-- who pays -/
  callerTenant : String
  /-- the model -/
  modelSlug : String
  /-- tokens of the prompt -/
  promptTokens : ℤ
  /-- tokens of the answer -/
  completionTokens : ℤ
  /-- tokens of the prompt, from the cache -/
  cachedTokens : ℤ
  /-- when the request came -/
  ts : ℤ
  /-- the rate it was billed at when it was processed -/
  processed : Option TokenRate := none
  deriving DecidableEq

/-- A row of `TenantCreditHistory`. -/
structure Credit where
  /-- who paid -/
  tenant : String
  /-- how much -/
  amountCents : ℤ
  /-- the payment it is for -/
  paymentRef : Option String := none
  deriving DecidableEq

/-- A row of `TenantQuota`. -/
structure TenantQuota where
  /-- credits less usage -/
  balanceCents : ℤ := 0
  /-- usage -/
  usedCents : ℤ := 0
  /-- usage by inference -/
  inferenceUsedCents : ℤ := 0
  /-- usage by standby -/
  standbyUsedCents : ℤ := 0
  /-- usage by tokens -/
  tokenUsedCents : ℤ := 0
  /-- what is below a cent, in the unit of ticks -/
  inferenceCarryNumer : ℤ := 0
  /-- what is below a cent, in the unit of ticks -/
  standbyCarryNumer : ℤ := 0
  /-- what is below a cent, in the unit of tokens -/
  tokenCarryNumer : ℤ := 0
  /-- the balance at which the tenant is stopped -/
  thresholdCents : ℤ := 0
  /-- is the tenant stopped? -/
  quotaExceeded : Bool := false
  deriving DecidableEq

/-- The billing database. -/
structure Db where
  /-- `UsageTick` -/
  ticks : List UsageTick := []
  /-- `TokenUsageEvent` -/
  tokens : List TokenEvent := []
  /-- `TenantCreditHistory` -/
  credits : List Credit := []
  /-- `BillingRate` -/
  rates : List BillingRate := []
  /-- `TokenRate` -/
  tokenRates : List TokenRate := []
  /-- `TenantQuota`, by tenant -/
  quota : String → Option TenantQuota := fun _ => none

/-! ## Rates -/

/-- `ORDER BY … LIMIT 1`: the first row of the order, the earliest of equal ones. -/
def firstBy {α : Type} (before : α → α → Bool) (l : List α) : Option α :=
  l.foldl (fun acc a => match acc with
    | none => some a
    | some b => if before a b then some a else some b) none

/-- Is a time in the period of a rate? -/
def inPeriod (effectiveFrom : ℤ) (effectiveTo : Option ℤ) (time : ℤ) : Bool :=
  decide (effectiveFrom ≤ time) && effectiveTo.all fun e => decide (time < e)

/-- A row for all, or for this one. -/
def appliesTo (x : Option String) (s : String) : Bool := x.all fun y => y == s

/-- `ORDER BY (r.tenant IS NOT NULL) DESC, r.effective_from DESC`. -/
def BillingRate.before (a b : BillingRate) : Bool :=
  if a.tenant.isSome = b.tenant.isSome then decide (b.effectiveFrom < a.effectiveFrom) else a.tenant.isSome

/-- The row that `GetBillingRateCents` finds. -/
def billingRate (rates : List BillingRate) (usageType : UsageType) (tickTime : ℤ) (tenant : String) : Option ℤ :=
  (firstBy BillingRate.before (rates.filter fun r =>
    r.standby == decide (usageType = .standby) && inPeriod r.effectiveFrom r.effectiveTo tickTime &&
      appliesTo r.tenant tenant)).map BillingRate.rateCentsPerHour

/-- `GetBillingRateCents`. -/
def getBillingRateCents (rates : List BillingRate) (usageType : UsageType) (tickTime : ℤ) (tenant : String) : ℤ :=
  (billingRate rates usageType tickTime tenant).getD 0

/-- `ORDER BY (r.tenant IS NOT NULL) DESC, (r.model_slug IS NOT NULL) DESC,
r.effective_from DESC`. -/
def TokenRate.before (a b : TokenRate) : Bool :=
  if a.tenant.isSome = b.tenant.isSome then
    if a.modelSlug.isSome = b.modelSlug.isSome then decide (b.effectiveFrom < a.effectiveFrom)
    else a.modelSlug.isSome
  else a.tenant.isSome

/-- `GetTokenRateMicrocents`. -/
def getTokenRateMicrocents (rates : List TokenRate) (modelSlug : String) (ts : ℤ) (tenant : String) :
    Option TokenRate :=
  firstBy TokenRate.before (rates.filter fun r =>
    appliesTo r.modelSlug modelSlug && appliesTo r.tenant tenant && inPeriod r.effectiveFrom r.effectiveTo ts)

/-- The rate of a tick. -/
def UsageTick.rate (rates : List BillingRate) (t : UsageTick) : Option ℤ :=
  billingRate rates t.usageType t.tickTime t.tenant

/-- The rate of a token event. -/
def TokenEvent.rate (rates : List TokenRate) (e : TokenEvent) : Option TokenRate :=
  getTokenRateMicrocents rates e.modelSlug e.ts e.callerTenant

/-! ## Amounts -/

/-- The amount of a tick at a rate: cents times 3600000. -/
def UsageTick.numer (t : UsageTick) (rate : Option ℤ) : ℤ := t.gpuCount * t.intervalMs * rate.getD 0

/-- Input tokens that are billed. Without a rate for cached tokens there is no
discount for them. -/
def TokenEvent.inputTokens (e : TokenEvent) (r : TokenRate) : ℤ :=
  if r.cached = 0 then e.promptTokens else max (e.promptTokens - e.cachedTokens) 0

/-- The amount of a token event at a rate: cents times 10¹². -/
def TokenEvent.numer (e : TokenEvent) (r : TokenRate) : ℤ :=
  e.inputTokens r * r.input + e.cachedTokens * r.cached + e.completionTokens * r.output

/-! ## A run -/

/-- `LIMIT`. -/
def batchLimit : ℕ := 10000

/-- Rows that are picked, in an order. -/
def pick {α : Type} (p : α → Bool) (le : α → α → Bool) (l : List α) : List α :=
  ((l.filter p).mergeSort le).take batchLimit

/-- `batch`: ticks that are not processed, by id. -/
def tickBatch (db : Db) : List UsageTick :=
  pick (fun t => t.processed.isNone) (fun a b => decide (a.id ≤ b.id)) db.ticks

/-- `token_batch`: token events that are not processed and have a rate, by id. -/
def tokenBatch (db : Db) : List TokenEvent :=
  pick (fun e => e.processed.isNone && (e.rate db.tokenRates).isSome)
    (fun a b => decide (a.gatewayRequestId ≤ b.gatewayRequestId)) db.tokens

/-- `agg`: the amounts of a tenant's ticks, for standby or for the others. -/
def tickAgg (rates : List BillingRate) (standby : Bool) (tenant : String) (batch : List UsageTick) : ℤ :=
  ((batch.filter fun t => t.tenant == tenant).map fun t =>
    if decide (t.usageType = .standby) = standby then t.numer (t.rate rates) else 0).sum

/-- `token_agg`: the amounts of a tenant's token events. -/
def tokenAgg (rates : List TokenRate) (tenant : String) (batch : List TokenEvent) : ℤ :=
  ((batch.filter fun e => e.callerTenant == tenant).map fun e => ((e.rate rates).map e.numer).getD 0).sum

/-- `affected`. -/
def affected (ticks : List UsageTick) (tokens : List TokenEvent) (tenant : String) : Bool :=
  ticks.any (fun t => t.tenant == tenant) || tokens.any fun e => e.callerTenant == tenant

/-- The credits of a tenant. -/
def creditsOf (credits : List Credit) (tenant : String) : ℤ :=
  ((credits.filter fun c => c.tenant == tenant).map Credit.amountCents).sum

/-- Milliseconds of an hour. -/
def tickDivisor : ℤ := 3600000

/-- Microcents for a million tokens. -/
def tokenDivisor : ℤ := 1000000000000

/-- `calc` and `updated`: the new totals, from the old ones `q`, the amounts of the
batch and the credits. -/
def calcQuota (q : TenantQuota) (inference standby token credits : ℤ) : TenantQuota :=
  let inferenceUsed := q.inferenceUsedCents + (q.inferenceCarryNumer + inference).tdiv tickDivisor
  let standbyUsed := q.standbyUsedCents + (q.standbyCarryNumer + standby).tdiv tickDivisor
  let tokenUsed := q.tokenUsedCents + (q.tokenCarryNumer + token).tdiv tokenDivisor
  let used := inferenceUsed + standbyUsed + tokenUsed
  { q with
    inferenceUsedCents := inferenceUsed
    standbyUsedCents := standbyUsed
    tokenUsedCents := tokenUsed
    usedCents := used
    inferenceCarryNumer := (q.inferenceCarryNumer + inference).tmod tickDivisor
    standbyCarryNumer := (q.standbyCarryNumer + standby).tmod tickDivisor
    tokenCarryNumer := (q.tokenCarryNumer + token).tmod tokenDivisor
    balanceCents := credits - used
    quotaExceeded := decide (credits - used ≤ q.thresholdCents) }

/-- `mark_processed`. -/
def markTick (rates : List BillingRate) (ids : List ℕ) (t : UsageTick) : UsageTick :=
  if t.id ∈ ids then { t with processed := some (t.rate rates) } else t

/-- `mark_token_processed`. -/
def markToken (rates : List TokenRate) (ids : List String) (e : TokenEvent) : TokenEvent :=
  if e.gatewayRequestId ∈ ids then { e with processed := e.rate rates } else e

/-- Has a tenant a row that makes step 1 insert it? -/
def known (db : Db) (tenant : String) : Bool :=
  db.ticks.any (fun t => t.processed.isNone && t.tenant == tenant) ||
    db.credits.any (fun c => c.tenant == tenant) ||
    db.tokens.any fun e => e.processed.isNone && e.callerTenant == tenant

/-- Step 1 of a run: a row for each new tenant. -/
def insertTenants (db : Db) : Db :=
  { db with quota := fun tenant => if known db tenant then some ((db.quota tenant).getD {}) else db.quota tenant }

/-- The writes of step 2: new totals, and marks on the rows of two batches. -/
def book (db : Db) (rates : List BillingRate) (tokenRates : List TokenRate) (ticks : List UsageTick)
    (tokens : List TokenEvent) (quota : String → Option TenantQuota) : Db :=
  { db with
    quota
    ticks := db.ticks.map (markTick rates (ticks.map UsageTick.id))
    tokens := db.tokens.map (markToken tokenRates (tokens.map TokenEvent.gatewayRequestId)) }

/-- Step 2 of a run, on the rows of two batches: the totals of the tenants that are
affected, and the marks. -/
def settle (db : Db) (ticks : List UsageTick) (tokens : List TokenEvent) : Db :=
  book db db.rates db.tokenRates ticks tokens fun tenant => (db.quota tenant).map fun q =>
    if affected ticks tokens tenant then
      calcQuota q (tickAgg db.rates false tenant ticks) (tickAgg db.rates true tenant ticks)
        (tokenAgg db.tokenRates tenant tokens) (creditsOf db.credits tenant)
    else q

/-- `update-and-check-quota.sql`. -/
def updateAndCheckQuota (db : Db) : Db :=
  settle (insertTenants db) (tickBatch (insertTenants db)) (tokenBatch (insertTenants db))

/-! ## Histories -/

/-- Is there a credit of a tenant for a payment? -/
def credited (credits : List Credit) (tenant : String) (paymentRef : Option String) : Bool :=
  paymentRef.isSome && credits.any fun c => c.tenant == tenant && c.paymentRef == paymentRef

/-- `AddTenantCredit`: a payment is credited once. -/
def addTenantCredit (db : Db) (c : Credit) : Db :=
  if credited db.credits c.tenant c.paymentRef then db else { db with credits := db.credits ++ [c] }

/-- What happens to the database. -/
inductive Op where
  /-- a tick -/
  | tick (t : UsageTick)
  /-- a token event -/
  | token (e : TokenEvent)
  /-- a payment -/
  | credit (c : Credit)
  /-- a rate for ticks -/
  | rate (r : BillingRate)
  /-- a rate for tokens -/
  | tokenRate (r : TokenRate)
  /-- a run -/
  | run

/-- One operation. A row is new, and so not processed. A tick gets the next id, and a
token event whose id is taken is dropped. -/
def Db.next (db : Db) : Op → Option Db
  | .tick t => some { db with ticks := db.ticks ++ [{ t with id := db.ticks.length, processed := none }] }
  | .token e =>
    if db.tokens.any fun e' => e'.gatewayRequestId == e.gatewayRequestId then some db
    else some { db with tokens := db.tokens ++ [{ e with processed := none }] }
  | .credit c => some (addTenantCredit db c)
  | .rate r => some { db with rates := db.rates ++ [r] }
  | .tokenRate r => some { db with tokenRates := db.tokenRates ++ [r] }
  | .run => some (updateAndCheckQuota db)

/-- Counts, intervals and rates are not negative. -/
def OpNonneg : Op → Prop
  | .tick t => 0 ≤ t.gpuCount ∧ 0 ≤ t.intervalMs
  | .token e => 0 ≤ e.promptTokens ∧ 0 ≤ e.completionTokens ∧ 0 ≤ e.cachedTokens
  | .credit _ => True
  | .rate r => 0 ≤ r.rateCentsPerHour
  | .tokenRate r => 0 ≤ r.input ∧ 0 ≤ r.output ∧ 0 ≤ r.cached
  | .run => True

/-- No rate is added for a row that has one. -/
def NotRetroactive (db : Db) : Op → Prop
  | .rate r => ∀ t ∈ db.ticks, ∀ x, t.rate db.rates = some x → t.rate (db.rates ++ [r]) = some x
  | .tokenRate r =>
    ∀ e ∈ db.tokens, ∀ x, e.rate db.tokenRates = some x → e.rate (db.tokenRates ++ [r]) = some x
  | _ => True

/-- The operations of a history. -/
def OpOk (db : Db) (op : Op) : Prop := OpNonneg op ∧ NotRetroactive db op

end Inferx.Billing
