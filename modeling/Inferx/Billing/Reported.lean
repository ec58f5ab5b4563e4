import Inferx.Billing.Hourly

/-!
# What is reported is what is debited

A debit waits for its event to get a rate, however long it takes. A rollup looks back
three hours. So an event that gets its rate later is debited and stands in no row. When
each event gets its rate while a rollup to come still covers its hour, the rows agree with
the debits, and a report has each event in one row.
-/

namespace Inferx.Billing

open Carry

/-! ## Histories -/

/-- The billing database, the rows of `TokenUsageHourly` and the time. -/
structure Ledger where
  /-- the tables that the debit is about -/
  db : Db
  /-- `NOW()` -/
  now : ℤ
  /-- `TokenUsageHourly` -/
  hourly : List HourlyRow := []
  /-- was there a rollup in this hour? -/
  rolled : Bool := false

/-- What happens. -/
inductive HourlyOp where
  /-- an operation on the database -/
  | op (o : Op)
  /-- time passes -/
  | advance (t : ℤ)
  /-- `token-hourly-aggregate.sql` -/
  | aggregate

/-- One operation. -/
def Ledger.next (s : Ledger) : HourlyOp → Option Ledger
  | .op o => (s.db.next o).map fun db => { s with db }
  | .advance t => some { s with now := t, rolled := s.rolled && decide (dateTrunc t = dateTrunc s.now) }
  | .aggregate => some { s with hourly := tokenHourlyAggregate s.db s.now s.hourly, rolled := true }

/-- An event is recorded after its request came. -/
def Recorded (now : ℤ) : Op → Prop
  | .token e => e.ts < now
  | _ => True

/-- The operations of a history: rates are added for what had none, and no hour ends
without a rollup. -/
def HourlyOk (s : Ledger) : HourlyOp → Prop
  | .op o => OpOk s.db o ∧ Recorded s.now o
  | .advance t => s.now ≤ t ∧
      (dateTrunc t = dateTrunc s.now ∨ s.rolled = true ∧ dateTrunc t = dateTrunc s.now + hourLen)
  | .aggregate => True

/-- The first hour that a rollup to come covers, whatever happens next. -/
def Ledger.due (s : Ledger) : ℤ := dateTrunc s.now - (if s.rolled then 2 else 3) * hourLen

/-- An event that gets a rate is of an hour that a rollup to come covers. -/
def Timely (s : Ledger) : HourlyOp → Prop
  | .op (.token e) => s.db.tokens.any (fun e' => e'.gatewayRequestId == e.gatewayRequestId) = false →
      (e.rate s.db.tokenRates).isSome = true → s.due ≤ e.ts
  | .op (.tokenRate r) => ∀ e ∈ s.db.tokens, e.rate s.db.tokenRates = none →
      (e.rate (s.db.tokenRates ++ [r])).isSome = true → s.due ≤ e.ts
  | _ => True

/-- The operations of a history in which no event gets its rate too late. -/
def HourlyTimely (s : Ledger) (i : HourlyOp) : Prop := HourlyOk s i ∧ Timely s i

/-- Before any usage. -/
structure NewLedger (s : Ledger) : Prop where
  /-- of the database -/
  db : NewDb s.db
  /-- no rows -/
  hourly : s.hourly = []

/-- The events that have a rate. -/
def Ledger.priced (s : Ledger) : List EventWithRate := eventWithRate s.db.tokenRates s.db.tokens

/-! ## Agreement -/

/-- A rollup would write nothing that is not there. -/
def Ledger.Fresh (s : Ledger) : Prop := ∀ r ∈ rollup s.db s.now, r ∈ s.hourly

/-- No event that has a rate is unprocessed. -/
def Ledger.Debited (s : Ledger) : Prop :=
  ∀ e ∈ s.db.tokens, (e.rate s.db.tokenRates).isSome = true → e.processed ≠ none

/-- The amounts of a tenant's rows. -/
def hourlySum (tenant : String) (hourly : List HourlyRow) : ℤ :=
  ((hourly.filter fun r => r.tenant == tenant).map HourlyRow.numer).sum

/-- The amounts of a tenant's events of the current hour. -/
def Ledger.currentSum (s : Ledger) (tenant : String) : ℤ :=
  sumOf EventWithRate.numer
    (s.priced.filter fun p => p.tenant == tenant && decide (dateTrunc p.ts = dateTrunc s.now))

/-- Rows and events of the current hour amount to what is debited. -/
def Ledger.Balanced (s : Ledger) : Prop :=
  s.Fresh → s.Debited → ∀ tenant,
    hourlySum tenant s.hourly + s.currentSum tenant =
      tokenDivisor * ((s.db.quota tenant).getD {}).tokenUsedCents + ((s.db.quota tenant).getD {}).tokenCarryNumer

/-- A query for all hours that has room for all rows. -/
structure Query.Whole (q : Query) (s : Ledger) : Prop where
  /-- the hours -/
  hours : ∀ e ∈ s.db.tokens, q.start ≤ dateTrunc e.ts ∧ dateTrunc e.ts ≤ q.stop
  /-- from the first row -/
  offset : q.offset = 0
  /-- to the last row -/
  limit : (combined s.db s.hourly s.now q).length ≤ q.limit

/-- A report over all hours has one row for the tenant, the model and the hour of each
event that has a rate, and the row sums up all such events. -/
def Ledger.Reported (s : Ledger) : Prop :=
  ∀ q : Query, q.Whole s → ∀ p ∈ s.priced, appliesTo q.tenant p.tenant = true →
    appliesTo q.modelSlug p.modelSlug = true →
    (listTokenUsageHourly s.db s.hourly s.now q).1.filter (fun r => r.key == p.key) =
      [recentRecord p.key (group p.key s.priced)]

/-! ## The invariant -/

/-- The rows of the hours that no rollup to come covers are final. -/
structure Ledger.Settled (s : Ledger) : Prop where
  /-- events are in the past -/
  past : ∀ e ∈ s.db.tokens, e.ts < s.now
  /-- one row for a key -/
  keys : (s.hourly.map HourlyRow.key).Nodup
  /-- a row is of an hour that is over -/
  ended : ∀ r ∈ s.hourly, r.hour < dateTrunc s.now
  /-- a row has an event -/
  keyed : ∀ r ∈ s.hourly, ∃ p ∈ s.priced, p.key = r.key
  /-- the row of a settled hour -/
  sound : ∀ r ∈ s.hourly, r.hour < s.due → r = hourlyRow r.key (group r.key s.priced)
  /-- an event of a settled hour has a row -/
  complete : ∀ p ∈ s.priced, dateTrunc p.ts < s.due → ∃ r ∈ s.hourly, r.key = p.key

variable {s : Ledger} {p : EventWithRate} {r : HourlyRow}

theorem Ledger.Settled.past_priced (h : s.Settled) (hp : p ∈ s.priced) : p.ts < s.now := by
  obtain ⟨e, he, r, -, rfl⟩ := mem_eventWithRate.mp hp
  exact h.past e he

theorem recentStart_le_due (s : Ledger) : recentStart s.now ≤ s.due := by
  unfold recentStart Ledger.due hourLen
  split
  next => omega
  next => omega

/-- The first hour that is due bounds a time exactly if it bounds the time's hour. -/
theorem due_le_dateTrunc {t : ℤ} : s.due ≤ t ↔ s.due ≤ dateTrunc t := by
  unfold Ledger.due
  rw [← dateTrunc_sub]
  exact le_dateTrunc

/-! ## Rollups -/

/-- Is an event in the window of a rollup? -/
theorem mem_window {now : ℤ} : (decide (dateTrunc (now - 3 * hourLen) ≤ p.ts) && decide (p.ts < dateTrunc now)) = true ↔
    recentStart now ≤ dateTrunc p.ts ∧ dateTrunc p.ts < dateTrunc now := by
  rw [Bool.and_eq_true, decide_eq_true_iff, decide_eq_true_iff, le_dateTrunc, dateTrunc_sub]
  refine and_congr_right fun _ => ?_
  rw [← not_le, ← not_le, ← le_dateTrunc]

theorem hour_key (p : EventWithRate) : p.key.2.2 = dateTrunc p.ts := rfl

/-- Events of one key are of one hour. -/
theorem dateTrunc_of_key {p' : EventWithRate} (h : p'.key = p.key) : dateTrunc p'.ts = dateTrunc p.ts := by
  rw [← hour_key, ← hour_key, h]

/-- The rows of a rollup: a row for each key in the window, with all events of the key. -/
theorem mem_rollup {db : Db} {now : ℤ} : r ∈ rollup db now ↔ ∃ p ∈ eventWithRate db.tokenRates db.tokens,
    (recentStart now ≤ dateTrunc p.ts ∧ dateTrunc p.ts < dateTrunc now) ∧
      r = hourlyRow p.key (group p.key (eventWithRate db.tokenRates db.tokens)) := by
  unfold rollup
  rw [mem_groupBy]
  constructor
  · rintro ⟨p, hp, rfl⟩
    obtain ⟨hmem, hwindow⟩ := List.mem_filter.mp hp
    refine ⟨p, hmem, mem_window.mp hwindow, ?_⟩
    rw [group_filter fun p' _ hkey => ?_]
    rw [mem_window, dateTrunc_of_key hkey]
    exact mem_window.mp hwindow
  · rintro ⟨p, hmem, hwindow, rfl⟩
    refine ⟨p, List.mem_filter.mpr ⟨hmem, mem_window.mpr hwindow⟩, ?_⟩
    rw [group_filter fun p' _ hkey => ?_]
    rw [mem_window, dateTrunc_of_key hkey]
    exact hwindow

/-- A key that had a row has one. -/
theorem exists_upsert {hourly rows : List HourlyRow} (h : r ∈ hourly) : ∃ r' ∈ upsert hourly rows, r'.key = r.key := by
  by_cases hkey : r.key ∈ rows.map HourlyRow.key
  · obtain ⟨r', hr', heq⟩ := List.mem_map.mp hkey
    exact ⟨r', mem_upsert.mpr (Or.inr hr'), heq⟩
  · exact ⟨r, mem_upsert.mpr (Or.inl ⟨h, hkey⟩), rfl⟩

/-- A rollup settles one more hour. -/
theorem Ledger.Settled.aggregate (h : s.Settled) :
    Ledger.Settled { s with hourly := tokenHourlyAggregate s.db s.now s.hourly, rolled := true } := by
  have hin : ∀ p ∈ s.priced, recentStart s.now ≤ dateTrunc p.ts → dateTrunc p.ts < dateTrunc s.now →
      ∃ r ∈ rollup s.db s.now, r.key = p.key := fun p hp hlow hhigh =>
    ⟨_, mem_rollup.mpr ⟨p, hp, ⟨hlow, hhigh⟩, rfl⟩, rfl⟩
  have hdue := recentStart_le_due s
  refine ⟨h.past, nodup_upsert h.keys (nodup_groupBy key_hourlyRow _), ?_, ?_, ?_, ?_⟩
  · intro r hr
    rcases mem_upsert.mp hr with ⟨hold, -⟩ | hnew
    · exact h.ended r hold
    · obtain ⟨p, -, hwindow, rfl⟩ := mem_rollup.mp hnew
      exact hwindow.2
  · intro r hr
    rcases mem_upsert.mp hr with ⟨hold, -⟩ | hnew
    · exact h.keyed r hold
    · obtain ⟨p, hp, -, rfl⟩ := mem_rollup.mp hnew
      exact ⟨p, hp, rfl⟩
  · intro r hr _
    rcases mem_upsert.mp hr with ⟨hold, hkey⟩ | hnew
    · by_cases hlow : r.hour < recentStart s.now
      · exact h.sound r hold (lt_of_lt_of_le hlow hdue)
      · -- a row of the window has an event, so the rollup replaces it
        obtain ⟨p, hp, heq⟩ := h.keyed r hold
        have hhour : dateTrunc p.ts = r.hour := congrArg (fun k : Key => k.2.2) heq
        obtain ⟨r', hr', heq'⟩ := hin p hp (hhour ▸ not_lt.mp hlow) (hhour ▸ h.ended r hold)
        exact absurd (List.mem_map.mpr ⟨r', hr', heq'.trans heq⟩) hkey
    · obtain ⟨p, hp, -, rfl⟩ := mem_rollup.mp hnew
      rfl
  · intro p hp hlt
    by_cases hlow : dateTrunc p.ts < recentStart s.now
    · obtain ⟨r, hr, heq⟩ := h.complete p hp (lt_of_lt_of_le hlow hdue)
      obtain ⟨r', hr', heq'⟩ : ∃ r' ∈ upsert s.hourly (rollup s.db s.now), r'.key = r.key := exists_upsert hr
      exact ⟨r', hr', heq'.trans heq⟩
    · have hhigh : dateTrunc p.ts < dateTrunc s.now := by
        unfold Ledger.due hourLen at hlt
        dsimp only at hlt
        rw [if_pos rfl] at hlt
        omega
      obtain ⟨r, hr, heq⟩ := hin p hp (not_lt.mp hlow) hhigh
      exact ⟨r, mem_upsert.mpr (Or.inr hr), heq⟩

/-- After a rollup there is nothing that one would write. -/
theorem fresh_aggregate (s : Ledger) :
    Ledger.Fresh { s with hourly := tokenHourlyAggregate s.db s.now s.hourly, rolled := true } :=
  fun _ hr => mem_upsert.mpr (Or.inr hr)

/-! ## Time passes -/

/-- No hour gets out of reach of the rollups while time passes. -/
theorem due_advance {t : ℤ} (h : HourlyOk s (.advance t)) :
    Ledger.due { s with now := t, rolled := s.rolled && decide (dateTrunc t = dateTrunc s.now) } = s.due := by
  unfold Ledger.due
  dsimp only
  rcases h.2 with hsame | ⟨hrolled, hnext⟩
  · rw [hsame, decide_eq_true rfl, Bool.and_true]
  · have hne : decide (dateTrunc t = dateTrunc s.now) = false := by
      rw [decide_eq_false_iff_not, hnext]
      unfold hourLen
      omega
    rw [hrolled, hne, hnext]
    unfold hourLen
    simp only [Bool.and_false, if_true]
    simp only [Bool.false_eq_true, if_false]
    omega

theorem Ledger.Settled.advance (h : s.Settled) {t : ℤ} (hok : HourlyOk s (.advance t)) :
    Ledger.Settled { s with now := t, rolled := s.rolled && decide (dateTrunc t = dateTrunc s.now) } := by
  have hdue := due_advance hok
  refine ⟨fun e he => lt_of_lt_of_le (h.past e he) hok.1, h.keys,
    fun r hr => lt_of_lt_of_le (h.ended r hr) (dateTrunc_mono hok.1), h.keyed, ?_, ?_⟩
  · intro r hr hlt
    rw [hdue] at hlt
    exact h.sound r hr hlt
  · intro p hp hlt
    rw [hdue] at hlt
    exact h.complete p hp hlt

/-! ## Operations on the database -/

/-- What an operation does to the events that have a rate: there are more of them, and
those of settled hours are the same. -/
structure Extends (s : Ledger) (db : Db) : Prop where
  /-- events are in the past -/
  past : ∀ e ∈ db.tokens, e.ts < s.now
  /-- events keep their rates -/
  kept : ∀ p ∈ s.priced, p ∈ eventWithRate db.tokenRates db.tokens
  /-- an event that gets its rate is of an hour that is not settled -/
  new : ∀ p ∈ eventWithRate db.tokenRates db.tokens, dateTrunc p.ts < s.due → p ∈ s.priced
  /-- the events of a key of a settled hour -/
  group : ∀ k : Key, k.2.2 < s.due → group k (eventWithRate db.tokenRates db.tokens) = group k s.priced

theorem Ledger.Settled.extends {db : Db} (h : s.Settled) (hext : Extends s db) :
    Ledger.Settled { s with db } := by
  refine ⟨hext.past, h.keys, h.ended, ?_, ?_, ?_⟩
  · intro r hr
    obtain ⟨p, hp, heq⟩ := h.keyed r hr
    exact ⟨p, hext.kept p hp, heq⟩
  · intro r hr hlt
    have hrow := h.sound r hr hlt
    rw [← hext.group r.key hlt] at hrow
    exact hrow
  · exact fun p hp hlt => h.complete p (hext.new p hp hlt) hlt

/-- Marks do not change what is read. -/
theorem eventWithRate_mark (rates rates' : List TokenRate) (ids : List String) (tokens : List TokenEvent) :
    eventWithRate rates (tokens.map (markToken rates' ids)) = eventWithRate rates tokens := by
  unfold eventWithRate
  rw [List.filterMap_map]
  refine List.filterMap_congr fun e _ => ?_
  unfold markToken
  dsimp only [Function.comp]
  split
  next => rfl
  next => rfl

/-- The events of a group, from the table. -/
theorem group_eventWithRate (k : Key) (rates : List TokenRate) (tokens : List TokenEvent) :
    group k (eventWithRate rates tokens) = eventWithRate rates
      (tokens.filter fun e => decide ((e.callerTenant, e.modelSlug, dateTrunc e.ts) = k)) := by
  unfold group eventWithRate
  rw [List.filter_filterMap, List.filterMap_filter]
  refine List.filterMap_congr fun e _ => ?_
  rcases hrate : e.rate rates with _ | r
  · simp
  · by_cases hkey : (e.callerTenant, e.modelSlug, dateTrunc e.ts) = k
    · simp [EventWithRate.key, TokenEvent.withRate, hkey]
    · simp [EventWithRate.key, TokenEvent.withRate, hkey]

/-- An operation that changes neither the events nor their rates. -/
theorem Extends.same {db : Db} (hpast : ∀ e ∈ db.tokens, e.ts < s.now)
    (heq : eventWithRate db.tokenRates db.tokens = s.priced) : Extends s db := by
  refine ⟨hpast, ?_, ?_, ?_⟩
  · exact fun p hp => heq ▸ hp
  · exact fun p hp _ => heq ▸ hp
  · exact fun k _ => by rw [heq]

/-- A new event. -/
theorem Ledger.Settled.extends_token {e : TokenEvent} (h : s.Settled) (hrecorded : e.ts < s.now)
    (htimely : (e.rate s.db.tokenRates).isSome = true → s.due ≤ e.ts) :
    Extends s { s.db with tokens := s.db.tokens ++ [{ e with processed := none }] } := by
  have hpriced : eventWithRate s.db.tokenRates (s.db.tokens ++ [{ e with processed := none }]) =
      s.priced ++ ((e.rate s.db.tokenRates).map e.withRate).toList := by
    unfold Ledger.priced eventWithRate
    rw [List.filterMap_append]
    refine congrArg _ ?_
    rcases hrate : e.rate s.db.tokenRates with _ | r
    · have hnone : ({ e with processed := none } : TokenEvent).rate s.db.tokenRates = none := hrate
      simp [hnone]
    · have hsome : ({ e with processed := none } : TokenEvent).rate s.db.tokenRates = some r := hrate
      simp [hsome, TokenEvent.withRate]
  -- what is new is one event at most, of an hour that is not settled
  have hnew : ∀ p ∈ ((e.rate s.db.tokenRates).map e.withRate).toList, s.due ≤ dateTrunc p.ts := by
    intro p hp
    obtain ⟨r, hr, rfl⟩ := Option.map_eq_some_iff.mp (Option.mem_toList.mp hp)
    have hle := htimely (by rw [hr]; rfl)
    show s.due ≤ dateTrunc e.ts
    exact due_le_dateTrunc.mp hle
  refine ⟨?_, ?_, ?_, ?_⟩
  · intro e' he'
    rcases List.mem_append.mp he' with hold | hone
    · exact h.past e' hold
    · rw [List.mem_singleton.mp hone]
      exact hrecorded
  · intro p hp
    dsimp only
    rw [hpriced]
    exact List.mem_append_left _ hp
  · intro p hp hlt
    dsimp only at hp
    rw [hpriced] at hp
    rcases List.mem_append.mp hp with hold | hone
    · exact hold
    · exact absurd hlt (not_lt.mpr (hnew p hone))
  · intro k hk
    dsimp only
    rw [hpriced]
    have hnone : Billing.group k ((e.rate s.db.tokenRates).map e.withRate).toList = [] := by
      refine List.filter_eq_nil_iff.mpr fun p hp hkey => ?_
      have hhour : dateTrunc p.ts = k.2.2 := by rw [← hour_key, of_decide_eq_true hkey]
      exact absurd hk (not_lt.mpr (hhour ▸ hnew p hp))
    unfold Billing.group at hnone ⊢
    rw [List.filter_append, hnone, List.append_nil]

/-- A new rate. -/
theorem Ledger.Settled.extends_tokenRate {x : TokenRate} (h : s.Settled) (hok : NotRetroactive s.db (.tokenRate x))
    (htimely : Timely s (.op (.tokenRate x))) :
    Extends s { s.db with tokenRates := s.db.tokenRates ++ [x] } := by
  -- an event of a settled hour has the rate it had, or none as before
  have hrate : ∀ e ∈ s.db.tokens, dateTrunc e.ts < s.due →
      e.rate (s.db.tokenRates ++ [x]) = e.rate s.db.tokenRates := by
    intro e he hlt
    rcases hold : e.rate s.db.tokenRates with _ | r
    · rcases hnew : e.rate (s.db.tokenRates ++ [x]) with _ | r'
      · rfl
      · have hle := htimely e he hold (by rw [hnew]; rfl)
        exact absurd hlt (not_lt.mpr (due_le_dateTrunc.mp hle))
    · exact hok e he r hold
  refine ⟨h.past, ?_, ?_, ?_⟩
  · intro p hp
    obtain ⟨e, he, r, hr, rfl⟩ := mem_eventWithRate.mp hp
    exact mem_eventWithRate.mpr ⟨e, he, r, hok e he r hr, rfl⟩
  · intro p hp hlt
    obtain ⟨e, he, r, hr, rfl⟩ := mem_eventWithRate.mp hp
    exact mem_eventWithRate.mpr ⟨e, he, r, (hrate e he hlt).symm.trans hr, rfl⟩
  · intro k hk
    unfold Ledger.priced
    rw [group_eventWithRate, group_eventWithRate]
    refine List.filterMap_congr fun e he => ?_
    obtain ⟨hmem, hkey⟩ := List.mem_filter.mp he
    have hhour : dateTrunc e.ts = k.2.2 := congrArg (fun k : Key => k.2.2) (of_decide_eq_true hkey)
    rw [hrate e hmem (hhour ▸ hk)]

/-- An operation on the database extends what is there. -/
theorem Ledger.Settled.extends_next {o : Op} {db : Db} (h : s.Settled) (hok : HourlyTimely s (.op o))
    (hnext : s.db.next o = some db) : Extends s db := by
  obtain ⟨⟨⟨-, hretro⟩, hrecorded⟩, htimely⟩ := hok
  cases o with
  | tick t =>
    obtain rfl := Option.some.inj hnext
    exact Extends.same h.past rfl
  | token e =>
    unfold Db.next at hnext
    dsimp only at hnext
    split at hnext
    next =>
      obtain rfl := Option.some.inj hnext
      exact Extends.same h.past rfl
    next hfresh =>
      obtain rfl := Option.some.inj hnext
      exact h.extends_token hrecorded (htimely (Bool.eq_false_iff.mpr hfresh))
  | credit c =>
    obtain rfl := Option.some.inj hnext
    unfold addTenantCredit
    split
    next => exact Extends.same h.past rfl
    next => exact Extends.same h.past rfl
  | rate r =>
    obtain rfl := Option.some.inj hnext
    exact Extends.same h.past rfl
  | tokenRate x =>
    obtain rfl := Option.some.inj hnext
    exact h.extends_tokenRate hretro htimely
  | run =>
    obtain rfl := Option.some.inj hnext
    refine Extends.same ?_ (eventWithRate_mark _ _ _ _)
    intro e he
    obtain ⟨e', he', rfl⟩ := mem_book_tokens he
    unfold markToken
    split
    next => exact h.past e' he'
    next => exact h.past e' he'

/-- One operation keeps the rows settled. -/
theorem Ledger.Settled.next {i : HourlyOp} {s' : Ledger} (h : s.Settled) (hok : HourlyTimely s i)
    (hnext : s.next i = some s') : s'.Settled := by
  cases i with
  | op o =>
    obtain ⟨db, hdb, rfl⟩ := Option.map_eq_some_iff.mp hnext
    exact h.extends (h.extends_next hok hdb)
  | advance t =>
    obtain rfl := Option.some.inj hnext
    exact h.advance hok.1
  | aggregate =>
    obtain rfl := Option.some.inj hnext
    exact h.aggregate

/-! ## The rows agree with the debits -/

/-- When nothing is left to roll up, each row has the sums of its events. -/
theorem Ledger.Settled.row (h : s.Settled) (hfresh : s.Fresh) (hr : r ∈ s.hourly) :
    r = hourlyRow r.key (group r.key s.priced) := by
  by_cases hlow : r.hour < recentStart s.now
  · exact h.sound r hr (lt_of_lt_of_le hlow (recentStart_le_due s))
  · obtain ⟨p, hp, heq⟩ := h.keyed r hr
    have hhour : dateTrunc p.ts = r.hour := congrArg (fun k : Key => k.2.2) heq
    have hrow : hourlyRow p.key (group p.key s.priced) ∈ s.hourly :=
      hfresh _ (mem_rollup.mpr ⟨p, hp, ⟨hhour ▸ not_lt.mp hlow, hhour ▸ h.ended r hr⟩, rfl⟩)
    have hsame : r = hourlyRow p.key (group p.key s.priced) := List.inj_on_of_nodup_map h.keys hr hrow heq.symm
    rw [← heq]
    exact hsame

/-- When nothing is left to roll up, each event of an hour that is over has a row. -/
theorem Ledger.Settled.exists_row (h : s.Settled) (hfresh : s.Fresh) (hp : p ∈ s.priced)
    (hover : dateTrunc p.ts < dateTrunc s.now) : ∃ r ∈ s.hourly, r.key = p.key := by
  by_cases hlow : dateTrunc p.ts < recentStart s.now
  · exact h.complete p hp (lt_of_lt_of_le hlow (recentStart_le_due s))
  · exact ⟨_, hfresh _ (mem_rollup.mpr ⟨p, hp, ⟨not_lt.mp hlow, hover⟩, rfl⟩), rfl⟩

/-- The rows of a tenant amount to its events of the hours that are over. -/
theorem Ledger.Settled.hourlySum_eq (h : s.Settled) (hfresh : s.Fresh) (tenant : String) :
    hourlySum tenant s.hourly = sumOf EventWithRate.numer
      (s.priced.filter fun p => p.tenant == tenant && decide (dateTrunc p.ts < dateTrunc s.now)) := by
  -- a row stands for its group, so this is a sum by groups
  have hkeys : ((s.hourly.filter fun r => r.tenant == tenant).map HourlyRow.key).Nodup :=
    h.keys.sublist (List.filter_sublist.map _)
  have hrows : hourlySum tenant s.hourly = (((s.hourly.filter fun r => r.tenant == tenant).map HourlyRow.key).map
      fun k => ((s.priced.filter fun p => decide (p.key = k)).map EventWithRate.numer).sum).sum := by
    unfold hourlySum
    rw [List.map_map]
    refine congrArg List.sum (List.map_congr_left fun r hr => ?_)
    have hrow := h.row hfresh (List.mem_filter.mp hr).1
    calc r.numer = (hourlyRow r.key (group r.key s.priced)).numer := by rw [← hrow]
      _ = sumOf EventWithRate.numer (group r.key s.priced) := numer_hourlyRow _ _
  rw [hrows]
  refine sum_groups hkeys fun p hp => ?_
  rw [Bool.and_eq_true, decide_eq_true_iff, beq_iff_eq]
  constructor
  · rintro ⟨htenant, hover⟩
    obtain ⟨r, hr, heq⟩ := h.exists_row hfresh hp hover
    have hwho : r.tenant = p.tenant := congrArg (fun k : Key => k.1) heq
    exact List.mem_map.mpr ⟨r, List.mem_filter.mpr ⟨hr, beq_iff_eq.mpr (hwho.trans htenant)⟩, heq⟩
  · intro hmem
    obtain ⟨r, hr, heq⟩ := List.mem_map.mp hmem
    obtain ⟨hr, htenant⟩ := List.mem_filter.mp hr
    have hhour : r.hour = dateTrunc p.ts := congrArg (fun k : Key => k.2.2) heq
    have hwho : r.tenant = p.tenant := congrArg (fun k : Key => k.1) heq
    exact ⟨hwho ▸ beq_iff_eq.mp htenant, hhour ▸ h.ended r hr⟩

/-- The events of a tenant: those of the hours that are over, and those of the current
one. -/
theorem Ledger.Settled.sum_split (h : s.Settled) (tenant : String) :
    sumOf EventWithRate.numer
        (s.priced.filter fun p => p.tenant == tenant && decide (dateTrunc p.ts < dateTrunc s.now)) +
      s.currentSum tenant = sumOf EventWithRate.numer (s.priced.filter fun p => p.tenant == tenant) := by
  unfold Ledger.currentSum sumOf
  rw [sum_map_filter, sum_map_filter, sum_map_filter, ← List.sum_map_add]
  refine congrArg List.sum (List.map_congr_left fun p hp => ?_)
  have hle : dateTrunc p.ts ≤ dateTrunc s.now := dateTrunc_mono (le_of_lt (h.past_priced hp))
  by_cases htenant : p.tenant = tenant
  · rcases lt_or_eq_of_le hle with hlt | heq
    · simp [htenant, hlt, ne_of_lt hlt]
    · simp [htenant, heq]
  · simp [htenant]

/-- When all events that have a rate are processed, they amount to what is debited. -/
theorem Ledger.Debited.tokenDebits_eq (h : s.Debited) (hk : RatesKept s.db) (tenant : String) :
    sumOf EventWithRate.numer (s.priced.filter fun p => p.tenant == tenant) = tokenDebits tenant s.db.tokens := by
  unfold sumOf tokenDebits Ledger.priced eventWithRate
  rw [sum_map_filter]
  -- event by event: it has a rate and is debited at it, or it has none and is not debited
  have hall : ∀ l : List TokenEvent, (∀ e ∈ l, e ∈ s.db.tokens) →
      ((l.filterMap fun e => (e.rate s.db.tokenRates).map e.withRate).map
        fun p => if (p.tenant == tenant) = true then p.numer else 0).sum = (l.map (TokenEvent.debit tenant)).sum := by
    intro l hl
    induction l with
    | nil => rfl
    | cons e l ih =>
      have hrest := ih fun e' he' => hl e' (List.mem_cons_of_mem _ he')
      have he := hl e List.mem_cons_self
      rcases hrate : e.rate s.db.tokenRates with _ | r
      · have hproc : e.processed = none := by
          rcases hproc : e.processed with _ | x
          · rfl
          · exact absurd (hk.token e he x hproc) (by rw [hrate]; simp)
        rw [List.filterMap_cons_none (by rw [hrate]; rfl), hrest, List.map_cons, List.sum_cons]
        simp [TokenEvent.debit, hproc]
      · obtain ⟨x, hproc⟩ := Option.ne_none_iff_exists'.mp (h e he (by rw [hrate]; rfl))
        have hx : r = x := Option.some.inj (hrate.symm.trans (hk.token e he x hproc))
        rw [List.filterMap_cons_some (by rw [hrate]; rfl), List.map_cons, List.sum_cons, hrest, List.map_cons,
          List.sum_cons, numer_withRate, hx]
        simp [TokenEvent.debit, hproc, TokenEvent.withRate]
  exact hall _ fun _ he => he

/-- What is rolled up and what is of the current hour is what is debited. -/
theorem Ledger.Settled.balanced (h : s.Settled) (hb : Booked s.db) (hk : RatesKept s.db) : s.Balanced := by
  intro hfresh hdebited tenant
  rw [h.hourlySum_eq hfresh, h.sum_split, hdebited.tokenDebits_eq hk]
  have hacc : Account s.db tenant ((s.db.quota tenant).getD {}) := by
    rcases hq : s.db.quota tenant with _ | q
    · exact hb.account_none hq
    · exact hb.account tenant q hq
  exact hacc.token.sum.symm

/-! ## A report has each event once -/

variable {q : Query}

/-- The hours of the two parts of a report. -/
theorem hour_of_historical {x : TokenUsageHourlyRecord} (h : x ∈ historical s.hourly s.now q) :
    x.hour < recentStart s.now := by
  obtain ⟨r, hr, rfl⟩ := List.mem_map.mp h
  have hcond := (List.mem_filter.mp hr).2
  simp only [Bool.and_eq_true, decide_eq_true_eq] at hcond
  exact hcond.1.1.2

theorem hour_of_recent {x : TokenUsageHourlyRecord} (h : x ∈ recent s.db s.now q) : recentStart s.now ≤ x.hour := by
  obtain ⟨p, hp, rfl⟩ := mem_groupBy.mp h
  have hcond := (List.mem_filter.mp hp).2
  simp only [Bool.and_eq_true, decide_eq_true_eq] at hcond
  have hle : recentStart s.now ≤ p.ts := le_trans (le_max_right _ _) hcond.1.1.1
  unfold recentStart at hle ⊢
  rw [← dateTrunc_sub] at hle ⊢
  exact le_dateTrunc.mp hle

/-- Each key has one row at most. -/
theorem Ledger.Settled.nodup_combined (h : s.Settled) (q : Query) :
    ((combined s.db s.hourly s.now q).map TokenUsageHourlyRecord.key).Nodup := by
  unfold combined
  rw [List.map_append, List.nodup_append]
  refine ⟨?_, nodup_groupBy key_recentRecord _, fun a ha b hb heq => ?_⟩
  · unfold historical
    rw [List.map_map]
    exact h.keys.sublist (List.filter_sublist.map _)
  · obtain ⟨x, hx, rfl⟩ := List.mem_map.mp ha
    obtain ⟨y, hy, rfl⟩ := List.mem_map.mp hb
    have hhour : x.hour = y.hour := congrArg (fun k : Key => k.2.2) heq
    have hlow := hour_of_historical hx
    have hhigh := hour_of_recent hy
    omega

/-- An event stands in a row with all events of its key. -/
theorem Ledger.Settled.mem_combined (h : s.Settled) (hq : q.Whole s) (hp : p ∈ s.priced)
    (htenant : appliesTo q.tenant p.tenant = true) (hmodel : appliesTo q.modelSlug p.modelSlug = true) :
    recentRecord p.key (group p.key s.priced) ∈ combined s.db s.hourly s.now q := by
  have hours : ∀ p ∈ s.priced, q.start ≤ dateTrunc p.ts ∧ dateTrunc p.ts ≤ q.stop := by
    intro p hp
    obtain ⟨e, he, r, -, rfl⟩ := mem_eventWithRate.mp hp
    exact hq.hours e he
  unfold combined
  rw [List.mem_append]
  by_cases hlow : dateTrunc p.ts < recentStart s.now
  · refine Or.inl ?_
    obtain ⟨r, hr, heq⟩ := h.complete p hp (lt_of_lt_of_le hlow (recentStart_le_due s))
    have hhour : r.hour = dateTrunc p.ts := congrArg (fun k : Key => k.2.2) heq
    have hwho : r.tenant = p.tenant := congrArg (fun k : Key => k.1) heq
    have hwhat : r.modelSlug = p.modelSlug := congrArg (fun k : Key => k.2.1) heq
    have hrow := h.sound r hr (hhour ▸ lt_of_lt_of_le hlow (recentStart_le_due s))
    rw [recentRecord_eq, ← heq, ← hrow]
    refine List.mem_map_of_mem (List.mem_filter.mpr ⟨hr, ?_⟩)
    simp only [Bool.and_eq_true, decide_eq_true_eq, hhour, hwho, hwhat]
    exact ⟨⟨⟨hours p hp, hlow⟩, htenant⟩, hmodel⟩
  · refine Or.inr ?_
    -- the conditions of the query do not part the events of one key
    have hcond : ∀ p' ∈ s.priced, p'.key = p.key →
        (decide (max q.start (recentStart s.now) ≤ p'.ts) && decide (p'.ts < min (q.stop + hourLen) s.now) &&
          appliesTo q.tenant p'.tenant && appliesTo q.modelSlug p'.modelSlug) = true := by
      intro p' hp' hkey
      have hhour := dateTrunc_of_key hkey
      have hwho : p'.tenant = p.tenant := congrArg (fun k : Key => k.1) hkey
      have hwhat : p'.modelSlug = p.modelSlug := congrArg (fun k : Key => k.2.1) hkey
      obtain ⟨hstart, hstop⟩ := hours p' hp'
      have hle := dateTrunc_le p'.ts
      have hend : p'.ts < dateTrunc p'.ts + hourLen := by
        unfold dateTrunc hourLen
        omega
      simp only [Bool.and_eq_true, decide_eq_true_eq, hwho, hwhat]
      refine ⟨⟨⟨max_le (by omega) (by omega), lt_min (by omega) (h.past_priced hp')⟩, htenant⟩, hmodel⟩
    refine mem_groupBy.mpr ⟨p, List.mem_filter.mpr ⟨hp, hcond p hp rfl⟩, ?_⟩
    exact congrArg (recentRecord p.key) (group_filter hcond).symm

/-- The only row with a key. -/
theorem filter_key {β : Type} {key : β → Key} {l : List β} {x : β} (hnodup : (l.map key).Nodup) (hx : x ∈ l) :
    l.filter (fun y => key y == key x) = [x] := by
  refine List.perm_singleton.mp ((List.perm_ext_iff_of_nodup ((List.Nodup.of_map key hnodup).filter _)
    (List.nodup_singleton x)).mpr fun y => ?_)
  rw [List.mem_filter, List.mem_singleton, beq_iff_eq]
  constructor
  · exact fun hy => List.inj_on_of_nodup_map hnodup hy.1 hx hy.2
  · rintro rfl
    exact ⟨hx, rfl⟩

theorem Ledger.Settled.reported (h : s.Settled) : s.Reported := by
  intro q hq p hp htenant hmodel
  have hperm : ((combined s.db s.hourly s.now q).mergeSort TokenUsageHourlyRecord.le).Perm
      (combined s.db s.hourly s.now q) := List.mergeSort_perm _ _
  have hall : (listTokenUsageHourly s.db s.hourly s.now q).1 =
      (combined s.db s.hourly s.now q).mergeSort TokenUsageHourlyRecord.le := by
    unfold listTokenUsageHourly
    dsimp only
    rw [hq.offset, List.drop_zero, List.take_of_length_le]
    rw [hperm.length_eq]
    exact hq.limit
  rw [hall]
  exact filter_key ((hperm.map _).nodup_iff.mpr (h.nodup_combined q))
    (hperm.mem_iff.mpr (h.mem_combined hq hp htenant hmodel))

/-! ## Histories in which no event gets its rate too late -/

theorem NewLedger.settled (h : NewLedger s) : s.Settled := by
  have hpriced : s.priced = [] := by
    unfold Ledger.priced
    rw [h.db.tokens]
    rfl
  refine ⟨?_, ?_, ?_, ?_, ?_, ?_⟩ <;> simp [h.hourly, h.db.tokens, hpriced]

/-- **Reported usage is debited usage.** In each state of a history in which no event gets
its rate too late, the rows and the current hour amount to what is debited, once all that
has a rate is processed and rolled up, and a report has each event in one row. After a
rollup there is nothing left to roll up. -/
theorem reported_of_timely (h : Reach Ledger.next NewLedger HourlyTimely s) :
    s.Balanced ∧ s.Reported ∧ ∀ s', s.next .aggregate = some s' → s'.Fresh := by
  have hinv : s.Settled ∧ Booked s.db ∧ RatesKept s.db := by
    refine h.invariant (I := fun s => s.Settled ∧ Booked s.db ∧ RatesKept s.db) (fun s hnew => ⟨hnew.settled, hnew.db.booked, hnew.db.ratesKept⟩) ?_
    rintro s i s' ⟨hs, hb, hk⟩ hok hnext
    refine ⟨hs.next hok hnext, ?_⟩
    cases i with
    | op o =>
      obtain ⟨db, hdb, rfl⟩ := Option.map_eq_some_iff.mp hnext
      exact ⟨hb.next hok.1.1.1 hdb, hk.next hb hok.1.1.2 hdb⟩
    | advance t =>
      obtain rfl := Option.some.inj hnext
      exact ⟨hb, hk⟩
    | aggregate =>
      obtain rfl := Option.some.inj hnext
      exact ⟨hb, hk⟩
  obtain ⟨hs, hb, hk⟩ := hinv
  refine ⟨hs.balanced hb hk, hs.reported, fun s' hnext => ?_⟩
  obtain rfl := Option.some.inj hnext
  exact fresh_aggregate s

/-! ## An event that gets its rate too late -/

/-- What there is stays, in other words. -/
theorem kept_iff {α : Type} {a b : Option α} : (a = none ∨ b = a) ↔ ∀ x, a = some x → b = some x := by
  constructor
  · rintro (rfl | rfl) x hx
    · cases hx
    · exact hx
  · intro h
    rcases a with _ | x
    · exact Or.inl rfl
    · exact Or.inr (h x rfl)

instance (db : Db) : (o : Op) → Decidable (OpOk db o)
  | .tick t => inferInstanceAs (Decidable ((0 ≤ t.gpuCount ∧ 0 ≤ t.intervalMs) ∧ True))
  | .token e =>
    inferInstanceAs (Decidable ((0 ≤ e.promptTokens ∧ 0 ≤ e.completionTokens ∧ 0 ≤ e.cachedTokens) ∧ True))
  | .credit _ => inferInstanceAs (Decidable (True ∧ True))
  | .rate r => decidable_of_iff (0 ≤ r.rateCentsPerHour ∧ ∀ t ∈ db.ticks,
      t.rate db.rates = none ∨ t.rate (db.rates ++ [r]) = t.rate db.rates)
    (and_congr_right fun _ => forall₂_congr fun _ _ => kept_iff)
  | .tokenRate r => decidable_of_iff ((0 ≤ r.input ∧ 0 ≤ r.output ∧ 0 ≤ r.cached) ∧ ∀ e ∈ db.tokens,
      e.rate db.tokenRates = none ∨ e.rate (db.tokenRates ++ [r]) = e.rate db.tokenRates)
    (and_congr_right fun _ => forall₂_congr fun _ _ => kept_iff)
  | .run => inferInstanceAs (Decidable (True ∧ True))

instance (now : ℤ) : (o : Op) → Decidable (Recorded now o)
  | .token e => inferInstanceAs (Decidable (e.ts < now))
  | .tick _ | .credit _ | .rate _ | .tokenRate _ | .run => .isTrue trivial

instance (s : Ledger) : (i : HourlyOp) → Decidable (HourlyOk s i)
  | .op o => inferInstanceAs (Decidable (OpOk s.db o ∧ Recorded s.now o))
  | .advance _ => inferInstanceAs (Decidable (_ ∧ (_ ∨ _ ∧ _)))
  | .aggregate => .isTrue trivial

instance (s : Ledger) : (i : HourlyOp) → Decidable (Timely s i)
  | .op (.token _) => inferInstanceAs (Decidable (_ → _ → _ ≤ _))
  | .op (.tokenRate _) => inferInstanceAs (Decidable (∀ _ ∈ _, _ → _ → _ ≤ _))
  | .op (.tick _) | .op (.credit _) | .op (.rate _) | .op .run | .advance _ | .aggregate => .isTrue trivial

instance (s : Ledger) (i : HourlyOp) : Decidable (HourlyTimely s i) :=
  inferInstanceAs (Decidable (HourlyOk s i ∧ Timely s i))

instance (s : Ledger) : Decidable s.Fresh := inferInstanceAs (Decidable (∀ _ ∈ _, _))

instance (s : Ledger) : Decidable s.Debited := inferInstanceAs (Decidable (∀ _ ∈ _, _ → _))

namespace Sample

/-- Before any usage, and without rates. -/
def opened : Ledger := { db := {}, now := 20 }

/-- A thousand tokens in the first hour. -/
def thousand : TokenEvent :=
  { gatewayRequestId := "r", callerTenant := "t", modelSlug := "m", promptTokens := 1000, completionTokens := 0,
    cachedTokens := 0, ts := 10 }

/-- A rate from the start on. -/
def tokenRate : TokenRate := { input := 5000000000, output := 0, effectiveFrom := 0 }

/-- An hour ends with a rollup in the next one. -/
def hourEnds (n : ℤ) : List HourlyOp := [.advance (n * hourLen), .aggregate]

/-- The rate comes in the next hour. -/
def inTime : List HourlyOp :=
  [.op (.token thousand), .aggregate, .advance hourLen, .op (.tokenRate tokenRate), .aggregate, .op .run]

/-- The rate comes after the rollup of the third hour that follows. -/
def tooLate : List HourlyOp :=
  [.op (.token thousand), .aggregate] ++ hourEnds 1 ++ hourEnds 2 ++ hourEnds 3 ++
    [.op (.tokenRate tokenRate)] ++ hourEnds 4 ++ [.op .run]

/-- All hours of a day. -/
def day : Query := { start := 0, stop := 24 * hourLen, limit := 100 }

theorem newLedger_opened : NewLedger opened := by
  refine ⟨⟨rfl, rfl, ⟨?_, ?_⟩, ?_⟩, rfl⟩
  · exact fun r hr => nomatch hr
  · exact fun r hr => nomatch hr
  · exact fun tenant q hq => nomatch hq

end Sample

/-- Five cents in the row of the hour, and as much debited. -/
theorem reported_inTime : ((exec Ledger.next HourlyTimely Sample.opened Sample.inTime).any fun s =>
      decide (s.Fresh ∧ s.Debited ∧ hourlySum "t" s.hourly = 5 * tokenDivisor)) = true ∧
    ∀ s, exec Ledger.next HourlyTimely Sample.opened Sample.inTime = some s → s.Balanced ∧ s.Reported := by
  refine ⟨by decide +kernel, fun s hs => ?_⟩
  have h := reported_of_timely (Reach.of_exec _ _ (Reach.init Sample.newLedger_opened) hs)
  exact ⟨h.1, h.2.1⟩

/-- Five cents are debited, and neither a row nor a report has them. -/
theorem priced_too_late : ∃ s, Reach Ledger.next NewLedger HourlyOk s ∧ ¬ s.Balanced ∧ ¬ s.Reported := by
  have hrun : ((exec Ledger.next HourlyOk Sample.opened Sample.tooLate).any fun s =>
      decide ((s.Fresh ∧ s.Debited ∧ hourlySum "t" s.hourly + s.currentSum "t" = 0 ∧
        ((s.db.quota "t").getD {}).tokenUsedCents = 5 ∧ ((s.db.quota "t").getD {}).tokenCarryNumer = 0) ∧
        s.priced = [Sample.thousand.withRate Sample.tokenRate] ∧ s.db.tokens.map TokenEvent.ts = [10] ∧
        combined s.db s.hourly s.now Sample.day = [])) = true := by
    decide +kernel
  obtain ⟨s, hs, hfacts⟩ := (Option.any_eq_true _ _).mp hrun
  obtain ⟨⟨hfresh, hdebited, hsum, hused, hcarry⟩, hpriced, hts, hnone⟩ := of_decide_eq_true hfacts
  refine ⟨s, Reach.of_exec _ _ (Reach.init Sample.newLedger_opened) hs, ?_, ?_⟩
  · intro hbalanced
    have heq := hbalanced hfresh hdebited "t"
    rw [hsum, hused, hcarry] at heq
    exact absurd heq (by decide)
  · intro hreported
    have hwhole : Sample.day.Whole s := by
      refine ⟨fun e he => ?_, rfl, by rw [hnone]; exact Nat.zero_le _⟩
      have hmem := List.mem_map_of_mem (f := TokenEvent.ts) he
      rw [hts, List.mem_singleton] at hmem
      rw [hmem]
      decide
    have hrow := hreported Sample.day hwhole (Sample.thousand.withRate Sample.tokenRate)
      (by rw [hpriced]; exact List.mem_singleton_self _) rfl rfl
    unfold listTokenUsageHourly at hrow
    rw [hnone] at hrow
    exact absurd hrow (by simp)

end Inferx.Billing
