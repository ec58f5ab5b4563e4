import Inferx.Billing.Debits

/-!
# Token usage by the hour

`token-hourly-aggregate.sql` sums the token events of the last three hours that have a
rate, by tenant, model and hour, and replaces the rows of `TokenUsageHourly` it has a sum
for. `ListTokenUsageHourly` reads those rows for the hours before the last three, and sums
the events of the last three hours and of the current one itself. Neither reads what was
debited.

Times are in microseconds, and an hour is named by the time it starts at.
-/

namespace Inferx.Billing

open Carry

/-! ## Hours -/

/-- `INTERVAL '1 hour'`. -/
def hourLen : ℤ := 3600000000

/-- `date_trunc('hour', t)`. -/
def dateTrunc (t : ℤ) : ℤ := t - t % hourLen

theorem dateTrunc_le (t : ℤ) : dateTrunc t ≤ t := by
  unfold dateTrunc hourLen
  omega

theorem dateTrunc_mono {t u : ℤ} (h : t ≤ u) : dateTrunc t ≤ dateTrunc u := by
  unfold dateTrunc hourLen
  omega

/-- A start of an hour bounds a time exactly if it bounds the time's hour. -/
theorem le_dateTrunc {t u : ℤ} : dateTrunc u ≤ t ↔ dateTrunc u ≤ dateTrunc t := by
  unfold dateTrunc hourLen
  omega

theorem dateTrunc_sub (t n : ℤ) : dateTrunc (t - n * hourLen) = dateTrunc t - n * hourLen := by
  unfold dateTrunc hourLen
  omega

/-! ## Rows -/

/-- A row of `TokenUsageHourly`. -/
structure HourlyRow where
  /-- who pays -/
  tenant : String
  /-- the model -/
  modelSlug : String
  /-- the hour -/
  hour : ℤ
  /-- tokens of the prompts -/
  inputTokens : ℤ
  /-- tokens of the prompts, from the cache -/
  cachedTokens : ℤ
  /-- tokens of the answers -/
  outputTokens : ℤ
  /-- how many events -/
  requestCount : ℤ
  /-- the amount for the prompts -/
  inputNumer : ℤ
  /-- the amount for the answers -/
  outputNumer : ℤ
  /-- the amount for what is cached -/
  cachedNumer : ℤ
  /-- all of it, in cents -/
  chargeCents : ℤ
  deriving DecidableEq

/-- What is unique about a row. -/
abbrev Key : Type := String × String × ℤ

/-- `UNIQUE(tenant, model_slug, hour)`. -/
def HourlyRow.key (r : HourlyRow) : Key := (r.tenant, r.modelSlug, r.hour)

/-- The amount of a row. -/
def HourlyRow.numer (r : HourlyRow) : ℤ := r.inputNumer + r.outputNumer + r.cachedNumer

/-- A row of `event_with_rate`: what is read of an event, and the rate it has. -/
structure EventWithRate where
  /-- who pays -/
  tenant : String
  /-- the model -/
  modelSlug : String
  /-- when the request came -/
  ts : ℤ
  /-- tokens of the prompt -/
  promptTokens : ℤ
  /-- tokens of the prompt, from the cache -/
  cachedTokens : ℤ
  /-- tokens of the answer -/
  completionTokens : ℤ
  /-- what `GetTokenRateMicrocents` finds -/
  rate : TokenRate
  deriving DecidableEq

/-- An event at a rate. -/
def TokenEvent.withRate (e : TokenEvent) (r : TokenRate) : EventWithRate :=
  { tenant := e.callerTenant
    modelSlug := e.modelSlug
    ts := e.ts
    promptTokens := e.promptTokens
    cachedTokens := e.cachedTokens
    completionTokens := e.completionTokens
    rate := r }

/-- `FROM TokenUsageEvent e CROSS JOIN LATERAL GetTokenRateMicrocents(…) r`. -/
def eventWithRate (rates : List TokenRate) (tokens : List TokenEvent) : List EventWithRate :=
  tokens.filterMap fun e => (e.rate rates).map e.withRate

/-- What an event is grouped by. -/
def EventWithRate.key (p : EventWithRate) : Key := (p.tenant, p.modelSlug, dateTrunc p.ts)

/-- `billable_input_tokens`. -/
def EventWithRate.billableInputTokens (p : EventWithRate) : ℤ :=
  if p.rate.cached = 0 then p.promptTokens else max (p.promptTokens - p.cachedTokens) 0

/-- The amount of an event. -/
def EventWithRate.numer (p : EventWithRate) : ℤ :=
  p.billableInputTokens * p.rate.input + p.completionTokens * p.rate.output + p.cachedTokens * p.rate.cached

/-- `SUM(…)` over events. -/
def sumOf (f : EventWithRate → ℤ) (l : List EventWithRate) : ℤ := (l.map f).sum

/-- The events of a group. -/
def group (k : Key) (l : List EventWithRate) : List EventWithRate := l.filter fun p => decide (p.key = k)

/-- `GROUP BY`: a result for each key. -/
def groupBy {β : Type} (f : Key → List EventWithRate → β) (l : List EventWithRate) : List β :=
  (l.map EventWithRate.key).dedup.map fun k => f k (group k l)

/-- A row of `hourly`. -/
def hourlyRow (k : Key) (l : List EventWithRate) : HourlyRow :=
  let inputNumer := sumOf (fun p => p.billableInputTokens * p.rate.input) l
  let outputNumer := sumOf (fun p => p.completionTokens * p.rate.output) l
  let cachedNumer := sumOf (fun p => p.cachedTokens * p.rate.cached) l
  { tenant := k.1
    modelSlug := k.2.1
    hour := k.2.2
    inputTokens := sumOf (fun p => p.promptTokens) l
    cachedTokens := sumOf (fun p => p.cachedTokens) l
    outputTokens := sumOf (fun p => p.completionTokens) l
    requestCount := l.length
    inputNumer
    outputNumer
    cachedNumer
    -- only for display: what is below a cent is cut off in each row
    chargeCents := (inputNumer + outputNumer + cachedNumer).tdiv 1000000000000 }

/-- `hourly`: the events of the three hours before the one of `now`, by key. -/
def rollup (db : Db) (now : ℤ) : List HourlyRow :=
  groupBy hourlyRow ((eventWithRate db.tokenRates db.tokens).filter fun p =>
    decide (dateTrunc (now - 3 * hourLen) ≤ p.ts) && decide (p.ts < dateTrunc now))

/-- `ON CONFLICT … DO UPDATE`: rows replace those with their keys. -/
def upsert (hourly rows : List HourlyRow) : List HourlyRow :=
  hourly.filter (fun r => decide (r.key ∉ rows.map HourlyRow.key)) ++ rows

/-- `token-hourly-aggregate.sql`. -/
def tokenHourlyAggregate (db : Db) (now : ℤ) (hourly : List HourlyRow) : List HourlyRow :=
  upsert hourly (rollup db now)

/-! ## The report -/

/-- `TokenUsageHourlyRecord`. -/
structure TokenUsageHourlyRecord where
  /-- who pays -/
  tenant : String
  /-- the model -/
  modelSlug : String
  /-- the hour -/
  hour : ℤ
  /-- tokens of the prompts -/
  inputTokens : ℤ
  /-- tokens of the prompts, from the cache -/
  cachedTokens : ℤ
  /-- tokens of the answers -/
  outputTokens : ℤ
  /-- how many events -/
  requestCount : ℤ
  /-- the amount in cents -/
  chargeCents : ℤ
  deriving DecidableEq

/-- What a record is for. -/
def TokenUsageHourlyRecord.key (r : TokenUsageHourlyRecord) : Key := (r.tenant, r.modelSlug, r.hour)

/-- A row of `historical`. -/
def HourlyRow.record (r : HourlyRow) : TokenUsageHourlyRecord :=
  { tenant := r.tenant
    modelSlug := r.modelSlug
    hour := r.hour
    inputTokens := r.inputTokens
    cachedTokens := r.cachedTokens
    outputTokens := r.outputTokens
    requestCount := r.requestCount
    chargeCents := r.chargeCents }

/-- A row of `recent`. -/
def recentRecord (k : Key) (l : List EventWithRate) : TokenUsageHourlyRecord :=
  { tenant := k.1
    modelSlug := k.2.1
    hour := k.2.2
    inputTokens := sumOf (fun p => p.promptTokens) l
    cachedTokens := sumOf (fun p => p.cachedTokens) l
    outputTokens := sumOf (fun p => p.completionTokens) l
    requestCount := l.length
    -- the price once more, as the query has it
    chargeCents :=
      (sumOf (fun p =>
          (if p.rate.cached = 0 then p.promptTokens else max (p.promptTokens - p.cachedTokens) 0) * p.rate.input) l +
        sumOf (fun p => p.cachedTokens * p.rate.cached) l +
        sumOf (fun p => p.completionTokens * p.rate.output) l).tdiv 1000000000000 }

/-- What is asked for. -/
structure Query where
  /-- of one tenant, or of all -/
  tenant : Option String := none
  /-- of one model, or of all -/
  modelSlug : Option String := none
  /-- from which hour -/
  start : ℤ
  /-- to which hour -/
  stop : ℤ
  /-- how many rows -/
  limit : ℕ
  /-- after how many rows -/
  offset : ℕ := 0

/-- `recent_start`. -/
def recentStart (now : ℤ) : ℤ := dateTrunc now - 3 * hourLen

/-- `historical`. -/
def historical (hourly : List HourlyRow) (now : ℤ) (q : Query) : List TokenUsageHourlyRecord :=
  (hourly.filter fun r => decide (q.start ≤ r.hour) && decide (r.hour ≤ q.stop) &&
    decide (r.hour < recentStart now) && appliesTo q.tenant r.tenant && appliesTo q.modelSlug r.modelSlug).map
      HourlyRow.record

/-- `recent`. -/
def recent (db : Db) (now : ℤ) (q : Query) : List TokenUsageHourlyRecord :=
  groupBy recentRecord ((eventWithRate db.tokenRates db.tokens).filter fun p =>
    decide (max q.start (recentStart now) ≤ p.ts) && decide (p.ts < min (q.stop + hourLen) now) &&
      appliesTo q.tenant p.tenant && appliesTo q.modelSlug p.modelSlug)

/-- `ORDER BY hour DESC, tenant, model_slug`. -/
def TokenUsageHourlyRecord.le (a b : TokenUsageHourlyRecord) : Bool :=
  if a.hour = b.hour then
    if a.tenant = b.tenant then decide (a.modelSlug ≤ b.modelSlug) else decide (a.tenant ≤ b.tenant)
  else decide (b.hour < a.hour)

/-- `combined`. -/
def combined (db : Db) (hourly : List HourlyRow) (now : ℤ) (q : Query) : List TokenUsageHourlyRecord :=
  historical hourly now q ++ recent db now q

/-- `ListTokenUsageHourly`: the records, and how many there are in all. -/
def listTokenUsageHourly (db : Db) (hourly : List HourlyRow) (now : ℤ) (q : Query) :
    List TokenUsageHourlyRecord × ℤ :=
  -- the count is a column of the rows, so without a row it is not known
  let rows := (((combined db hourly now q).mergeSort TokenUsageHourlyRecord.le).drop q.offset).take q.limit
  (rows, if rows.isEmpty then 0 else (combined db hourly now q).length)

/-! ## Groups -/

section Groups

variable {α κ : Type} [DecidableEq κ]

/-- **Sums by group.** A sum over the groups of distinct keys is a sum over the members of
these groups. -/
theorem sum_groups {key : α → κ} {g : α → ℤ} {ks : List κ} {c : α → Bool} {l : List α} (hks : ks.Nodup)
    (hc : ∀ a ∈ l, c a = true ↔ key a ∈ ks) :
    (ks.map fun k => ((l.filter fun a => decide (key a = k)).map g).sum).sum = ((l.filter c).map g).sum := by
  -- on the keys: the members of the first group are in no other one
  induction ks generalizing c with
  | nil =>
    rw [List.filter_eq_nil_iff.mpr fun a ha hcond => List.not_mem_nil ((hc a ha).mp hcond)]
    rfl
  | cons k ks ih =>
    obtain ⟨hk, hks⟩ := List.nodup_cons.mp hks
    rw [List.map_cons, List.sum_cons, ih hks fun a _ => decide_eq_true_iff, sum_map_filter, sum_map_filter,
      sum_map_filter, ← List.sum_map_add]
    refine congrArg List.sum (List.map_congr_left fun a ha => ?_)
    have hiff := hc a ha
    rw [List.mem_cons] at hiff
    by_cases heq : key a = k
    · simp [hiff, heq, hk]
    · simp [hiff, heq]

end Groups

variable {rates : List TokenRate} {tokens : List TokenEvent} {l : List EventWithRate} {k : Key} {p : EventWithRate}

theorem mem_eventWithRate :
    p ∈ eventWithRate rates tokens ↔ ∃ e ∈ tokens, ∃ r, e.rate rates = some r ∧ e.withRate r = p := by
  unfold eventWithRate
  simp only [List.mem_filterMap, Option.map_eq_some_iff]

@[simp] theorem key_hourlyRow (k : Key) (l : List EventWithRate) : (hourlyRow k l).key = k := rfl

@[simp] theorem key_recentRecord (k : Key) (l : List EventWithRate) : (recentRecord k l).key = k := rfl

@[simp] theorem key_record (r : HourlyRow) : r.record.key = r.key := rfl

/-- The price is written in two ways. -/
theorem recentRecord_eq (k : Key) (l : List EventWithRate) : recentRecord k l = (hourlyRow k l).record := by
  unfold recentRecord hourlyRow HourlyRow.record EventWithRate.billableInputTokens
  simp only [TokenUsageHourlyRecord.mk.injEq, true_and]
  rw [add_right_comm]

/-- It is the amount that is debited. -/
theorem numer_withRate (e : TokenEvent) (r : TokenRate) : (e.withRate r).numer = e.numer r :=
  add_right_comm _ _ _

/-- The amount of a row is that of its events. -/
theorem numer_hourlyRow (k : Key) (l : List EventWithRate) :
    (hourlyRow k l).numer = sumOf EventWithRate.numer l := by
  unfold hourlyRow HourlyRow.numer sumOf EventWithRate.numer
  rw [List.sum_map_add, List.sum_map_add]

theorem mem_groupBy {β : Type} {f : Key → List EventWithRate → β} {b : β} :
    b ∈ groupBy f l ↔ ∃ p ∈ l, b = f p.key (group p.key l) := by
  unfold groupBy
  simp only [List.mem_map, List.mem_dedup]
  constructor
  · rintro ⟨k, ⟨p, hp, rfl⟩, rfl⟩
    exact ⟨p, hp, rfl⟩
  · rintro ⟨p, hp, rfl⟩
    exact ⟨p.key, ⟨p, hp, rfl⟩, rfl⟩

/-- Each key has one row. -/
theorem nodup_groupBy {β : Type} {f : Key → List EventWithRate → β} {key : β → Key} (hkey : ∀ k l, key (f k l) = k)
    (l : List EventWithRate) : ((groupBy f l).map key).Nodup := by
  unfold groupBy
  rw [List.map_map]
  have hid : (key ∘ fun k => f k (group k l)) = id := funext fun k => hkey k _
  rw [hid, List.map_id]
  exact List.nodup_dedup _

/-- A group that a condition does not cut. -/
theorem group_filter {c : EventWithRate → Bool} (h : ∀ p ∈ l, p.key = k → c p = true) :
    group k (l.filter c) = group k l := by
  unfold group
  rw [List.filter_filter]
  refine List.filter_congr fun p hp => ?_
  by_cases hkey : p.key = k
  · rw [h p hp hkey, Bool.and_true]
  · simp [hkey]

theorem mem_upsert {hourly rows : List HourlyRow} {r : HourlyRow} :
    r ∈ upsert hourly rows ↔ (r ∈ hourly ∧ r.key ∉ rows.map HourlyRow.key) ∨ r ∈ rows := by
  unfold upsert
  rw [List.mem_append, List.mem_filter, decide_eq_true_iff]

theorem nodup_upsert {hourly rows : List HourlyRow} (h : (hourly.map HourlyRow.key).Nodup)
    (hrows : (rows.map HourlyRow.key).Nodup) : ((upsert hourly rows).map HourlyRow.key).Nodup := by
  unfold upsert
  rw [List.map_append, List.nodup_append]
  refine ⟨h.sublist (List.filter_sublist.map _), hrows, fun a ha b hb heq => ?_⟩
  obtain ⟨r, hr, rfl⟩ := List.mem_map.mp ha
  have hout := (List.mem_filter.mp hr).2
  rw [decide_eq_true_iff] at hout
  exact hout (heq ▸ hb)

end Inferx.Billing
