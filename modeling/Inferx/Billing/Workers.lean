import Inferx.Lib.Parties
import Inferx.Billing.Debits

/-!
# Billing workers side by side

Several workers may run `update-and-check-quota.sql` at the same time. Each takes a
snapshot when its statement starts, locks the rows that it takes, and writes in the
end. Locks keep the rows apart. The totals are read from the snapshot and written in
the end, so a debit that another worker has committed for the same tenant in between
is overwritten.

A new tenant gets its row of totals in a statement of its own. A row of usage that
comes between the two statements is taken without one.

`RecalculateTenantQuota` writes the balance and the flag only.
-/

namespace Inferx.Billing

open Carry

/-! ## Workers -/

/-- A run whose statement has started. -/
structure Run where
  /-- what it sees -/
  snapshot : Db
  /-- how often each tenant had been debited then -/
  seen : String → ℕ
  /-- the ticks it has locked -/
  ticks : List UsageTick := []
  /-- the token events it has locked -/
  tokens : List TokenEvent := []

/-- The database and the runs in progress. -/
structure System where
  /-- the database -/
  db : Db := {}
  /-- the runs -/
  runs : List Run := []
  /-- how many runs have been committed for each tenant -/
  debits : String → ℕ := fun _ => 0

/-- Is a tick locked? -/
def System.tickLocked (s : System) (t : UsageTick) : Bool := s.runs.any fun r => r.ticks.any fun t' => t'.id == t.id

/-- Is a token event locked? -/
def System.tokenLocked (s : System) (e : TokenEvent) : Bool :=
  s.runs.any fun r => r.tokens.any fun e' => e'.gatewayRequestId == e.gatewayRequestId

/-- `FOR UPDATE SKIP LOCKED`: rows of the snapshot that are still not processed and not
locked, and a rate for each token event. -/
def System.Claimable (s : System) (r : Run) (ticks : List UsageTick) (tokens : List TokenEvent) : Prop :=
  (ticks.Nodup ∧ ticks.length ≤ batchLimit ∧ ∀ t ∈ ticks,
    t ∈ r.snapshot.ticks ∧ t ∈ s.db.ticks ∧ t.processed = none ∧ s.tickLocked t = false) ∧
  tokens.Nodup ∧ tokens.length ≤ batchLimit ∧ ∀ e ∈ tokens, e ∈ r.snapshot.tokens ∧ e ∈ s.db.tokens ∧
    e.processed = none ∧ (e.rate r.snapshot.tokenRates).isSome = true ∧ s.tokenLocked e = false

instance (s : System) (r : Run) (ticks : List UsageTick) (tokens : List TokenEvent) :
    Decidable (s.Claimable r ticks tokens) := by
  unfold System.Claimable
  infer_instance

/-- The totals that a run writes: computed from its snapshot, over whatever is there. -/
def Run.quota (r : Run) (db : Db) (tenant : String) : Option TenantQuota :=
  (db.quota tenant).map fun live =>
    if affected r.ticks r.tokens tenant then
      match r.snapshot.quota tenant with
      | none => live
      | some q =>
        { calcQuota q (tickAgg r.snapshot.rates false tenant r.ticks) (tickAgg r.snapshot.rates true tenant r.ticks)
            (tokenAgg r.snapshot.tokenRates tenant r.tokens) (creditsOf r.snapshot.credits tenant) with
          thresholdCents := live.thresholdCents }
    else live

/-- A run is committed. -/
def Run.commit (r : Run) (db : Db) : Db :=
  book db r.snapshot.rates r.snapshot.tokenRates r.ticks r.tokens (r.quota db)

/-- `RecalculateTenantQuota`. -/
def recalculateTenantQuota (db : Db) (tenant : String) : Db :=
  let q := (db.quota tenant).getD {}
  let balance := creditsOf db.credits tenant - q.usedCents
  { db with quota := fun a =>
      if a = tenant then some { q with balanceCents := balance, quotaExceeded := decide (balance ≤ q.thresholdCents) }
      else db.quota a }

/-- What happens. -/
inductive Act where
  /-- a row is inserted -/
  | op (o : Op)
  /-- step 1 of a run -/
  | insertTenants
  /-- the statement of step 2 starts -/
  | start
  /-- a run locks its rows -/
  | claim (w : ℕ) (ticks : List UsageTick) (tokens : List TokenEvent)
  /-- a run is committed -/
  | commit (w : ℕ)
  /-- a run fails -/
  | abort (w : ℕ)
  /-- the quota of a tenant is recalculated -/
  | recalculate (tenant : String)

/-- A row is inserted. A whole run is not one step here. -/
def System.insert (s : System) : Op → Option System
  | .run => none
  | o => (s.db.next o).map fun db => { s with db }

/-- One step. A run that has locked its rows goes to the end of the list. -/
def System.next (s : System) : Act → Option System
  | .op o => s.insert o
  | .insertTenants => some { s with db := Billing.insertTenants s.db }
  | .start => some { s with runs := s.runs ++ [{ snapshot := s.db, seen := s.debits }] }
  | .claim w ticks tokens =>
    match s.runs[w]? with
    | none => none
    | some r =>
      if r.ticks = [] ∧ r.tokens = [] ∧ s.Claimable r ticks tokens then
        some { s with runs := s.runs.eraseIdx w ++ [{ r with ticks, tokens }] }
      else none
  | .commit w =>
    match s.runs[w]? with
    | none => none
    | some r => some
      { db := r.commit s.db
        runs := s.runs.eraseIdx w
        debits := fun tenant => if affected r.ticks r.tokens tenant then s.debits tenant + 1 else s.debits tenant }
  | .abort w => some { s with runs := s.runs.eraseIdx w }
  | .recalculate tenant => some { s with db := recalculateTenantQuota s.db tenant }

/-- Counts and rates that are inserted are not negative. -/
def ActNonneg : Act → Prop
  | .op o => OpNonneg o
  | _ => True

/-- No run has been committed for a tenant since the snapshot of another, in which it
has totals. -/
def System.Current (s : System) (r : Run) (tenant : String) : Prop :=
  r.seen tenant = s.debits tenant ∧ (r.snapshot.quota tenant).isSome = true

/-- A run is committed only if what it sees is current, for each tenant that it debits. -/
def CommitOk (s : System) : Act → Prop
  | .commit w => ∀ r ∈ s.runs[w]?, (∀ t ∈ r.ticks, s.Current r t.tenant) ∧ ∀ e ∈ r.tokens, s.Current r e.callerTenant
  | _ => True

/-- What has been debited is all of what is marked as processed. -/
structure Debited (db : Db) : Prop where
  /-- the totals of each tenant -/
  account : ∀ tenant q, db.quota tenant = some q → Account db tenant q
  /-- there are totals for each tick that is processed -/
  tick : ∀ t ∈ db.ticks, t.processed ≠ none → (db.quota t.tenant).isSome = true
  /-- there are totals for each token event that is processed -/
  token : ∀ e ∈ db.tokens, e.processed ≠ none → (db.quota e.callerTenant).isSome = true

/-! ## The invariant -/

variable {s s' : System} {r : Run} {db : Db} {tenant : String}

/-- What holds of a run in progress. -/
structure Held (db : Db) (debits : String → ℕ) (r : Run) : Prop where
  /-- the rates it sees are not negative -/
  rates : RatesOk r.snapshot.rates r.snapshot.tokenRates
  /-- it locks ticks that are not processed -/
  ticks : ∀ t ∈ r.ticks, t ∈ db.ticks ∧ t.processed = none
  /-- each once -/
  nodupTicks : r.ticks.Nodup
  /-- it locks token events that are not processed and have a rate -/
  tokens : ∀ e ∈ r.tokens, e ∈ db.tokens ∧ e.processed = none ∧ (e.rate r.snapshot.tokenRates).isSome = true
  /-- each once -/
  nodupTokens : r.tokens.Nodup
  /-- debits are counted up -/
  seen : ∀ tenant, r.seen tenant ≤ debits tenant
  /-- without a debit since then, the usage is what it sees -/
  same : ∀ tenant q, r.snapshot.quota tenant = some q → r.seen tenant = debits tenant →
    ∃ live, db.quota tenant = some live ∧ SameUsage live q

/-- Two runs lock different rows. -/
def Apart (r r' : Run) : Prop :=
  (∀ t ∈ r.ticks, ∀ t' ∈ r'.ticks, t.id ≠ t'.id) ∧
    ∀ e ∈ r.tokens, ∀ e' ∈ r'.tokens, e.gatewayRequestId ≠ e'.gatewayRequestId

theorem Apart.symm {r r' : Run} (h : Apart r r') : Apart r' r :=
  ⟨fun t ht t' ht' heq => h.1 t' ht' t ht heq.symm, fun e he e' he' heq => h.2 e' he' e he heq.symm⟩

/-- What holds at all times. -/
structure SysInv (s : System) : Prop where
  /-- the books are in order -/
  booked : Booked s.db
  /-- the runs in progress -/
  held : ∀ r ∈ s.runs, Held s.db s.debits r
  /-- no two lock the same row -/
  apart : s.runs.Pairwise Apart

/-- Rows are added and totals are kept. -/
structure Grows (db db' : Db) : Prop where
  /-- ticks -/
  ticks : ∀ t ∈ db.ticks, t ∈ db'.ticks
  /-- token events -/
  tokens : ∀ e ∈ db.tokens, e ∈ db'.tokens
  /-- totals -/
  quota : ∀ tenant q, db.quota tenant = some q → ∃ q', db'.quota tenant = some q' ∧ SameUsage q q'

theorem SameUsage.trans {q q' q'' : TenantQuota} (h : SameUsage q q') (h' : SameUsage q' q'') : SameUsage q q'' :=
  ⟨⟨h'.inference.1.trans h.inference.1, h'.inference.2.trans h.inference.2⟩,
    ⟨h'.standby.1.trans h.standby.1, h'.standby.2.trans h.standby.2⟩,
    ⟨h'.token.1.trans h.token.1, h'.token.2.trans h.token.2⟩, h'.used.trans h.used⟩

theorem SameUsage.symm {q q' : TenantQuota} (h : SameUsage q q') : SameUsage q' q :=
  ⟨⟨h.inference.1.symm, h.inference.2.symm⟩, ⟨h.standby.1.symm, h.standby.2.symm⟩,
    ⟨h.token.1.symm, h.token.2.symm⟩, h.used.symm⟩

/-- A run in progress is not touched by what grows. -/
theorem Held.grows {db' : Db} {debits : String → ℕ} (h : Held db debits r) (hg : Grows db db') :
    Held db' debits r := by
  refine ⟨h.rates, fun t ht => ⟨hg.ticks t (h.ticks t ht).1, (h.ticks t ht).2⟩, h.nodupTicks,
    fun e he => ⟨hg.tokens e (h.tokens e he).1, (h.tokens e he).2⟩, h.nodupTokens, h.seen, ?_⟩
  intro tenant q hq hseen
  obtain ⟨live, hlive, hsame⟩ := h.same tenant q hq hseen
  obtain ⟨live', hlive', hsame'⟩ := hg.quota tenant live hlive
  exact ⟨live', hlive', hsame'.symm.trans hsame⟩

theorem SysInv.grows {db' : Db} (h : SysInv s) (hb : Booked db') (hg : Grows s.db db') :
    SysInv { s with db := db' } :=
  ⟨hb, fun r hr => (h.held r hr).grows hg, h.apart⟩

theorem grows_next {db' : Db} {o : Op} (hne : o ≠ .run) (h : db.next o = some db') : Grows db db' := by
  have hsame : ∀ tenant q, db.quota tenant = some q → ∃ q', db.quota tenant = some q' ∧ SameUsage q q' :=
    fun _ q hq => ⟨q, hq, SameUsage.refl q⟩
  cases o with
  | tick t =>
    obtain rfl := Option.some.inj h
    exact ⟨fun t' ht' => List.mem_append_left _ ht', fun _ he => he, hsame⟩
  | token e =>
    unfold Db.next at h
    dsimp only at h
    split at h
    next =>
      obtain rfl := Option.some.inj h
      exact ⟨fun _ ht => ht, fun _ he => he, hsame⟩
    next =>
      obtain rfl := Option.some.inj h
      exact ⟨fun _ ht => ht, fun e' he' => List.mem_append_left _ he', hsame⟩
  | credit c =>
    obtain rfl := Option.some.inj h
    unfold addTenantCredit
    split
    next => exact ⟨fun _ ht => ht, fun _ he => he, hsame⟩
    next => exact ⟨fun _ ht => ht, fun _ he => he, hsame⟩
  | rate r =>
    obtain rfl := Option.some.inj h
    exact ⟨fun _ ht => ht, fun _ he => he, hsame⟩
  | tokenRate r =>
    obtain rfl := Option.some.inj h
    exact ⟨fun _ ht => ht, fun _ he => he, hsame⟩
  | run => exact absurd rfl hne

theorem grows_insertTenants : Grows db (insertTenants db) := by
  refine ⟨fun _ ht => ht, fun _ he => he, fun tenant q hq => ⟨q, ?_, SameUsage.refl q⟩⟩
  unfold insertTenants
  dsimp only
  rw [hq]
  split
  next => rfl
  next => rfl

/-- The balance and the flag are no usage. -/
theorem grows_recalculate : Grows db (recalculateTenantQuota db tenant) := by
  refine ⟨fun _ ht => ht, fun _ he => he, fun tenant' q hq => ?_⟩
  unfold recalculateTenantQuota
  dsimp only
  split
  next heq =>
    subst heq
    rw [hq, Option.getD_some]
    exact ⟨_, rfl, ⟨rfl, rfl⟩, ⟨rfl, rfl⟩, ⟨rfl, rfl⟩, rfl⟩
  next => exact ⟨q, hq, SameUsage.refl q⟩

theorem Booked.recalculate (h : Booked db) : Booked (recalculateTenantQuota db tenant) := by
  have hsome : ∀ tenant', (db.quota tenant').isSome = true →
      ((recalculateTenantQuota db tenant).quota tenant').isSome = true := by
    intro tenant' hold
    obtain ⟨q, hq⟩ := Option.isSome_iff_exists.mp hold
    obtain ⟨q', hq', -⟩ := grows_recalculate.quota tenant' q hq
    rw [hq']
    rfl
  refine ⟨h.tickId, h.tickIds, h.tokenIds, h.ticks, h.tokens, h.rates, ?_,
    fun t ht hproc => hsome _ (h.tickTenant t ht hproc), fun e he hproc => hsome _ (h.tokenTenant e he hproc)⟩
  intro tenant' q' hq'
  unfold recalculateTenantQuota at hq'
  dsimp only at hq'
  split at hq'
  next heq =>
    subst heq
    obtain rfl := Option.some.inj hq'
    have hold : Account db tenant' ((db.quota tenant').getD {}) := by
      rcases hq : db.quota tenant' with _ | q
      · exact h.account_none hq
      · exact h.account tenant' q hq
    exact hold.congr ⟨⟨rfl, rfl⟩, ⟨rfl, rfl⟩, ⟨rfl, rfl⟩, rfl⟩ (fun _ => rfl) rfl
  next => exact (h.account tenant' q' hq').congr (SameUsage.refl q') (fun _ => rfl) rfl

/-! ## A run is committed -/

/-- What a run sees is current, for each tenant that it debits. -/
def UpToDate (s : System) (r : Run) : Prop :=
  ∀ tenant, affected r.ticks r.tokens tenant = true → s.Current r tenant

theorem upToDate_of_rows (hticks : ∀ t ∈ r.ticks, s.Current r t.tenant)
    (htokens : ∀ e ∈ r.tokens, s.Current r e.callerTenant) : UpToDate s r := by
  intro tenant haff
  rcases Bool.or_eq_true_iff.mp haff with hany | hany
  · obtain ⟨t, ht, heq⟩ := List.any_eq_true.mp hany
    exact beq_iff_eq.mp heq ▸ hticks t ht
  · obtain ⟨e, he, heq⟩ := List.any_eq_true.mp hany
    exact beq_iff_eq.mp heq ▸ htokens e he

/-- The totals that a tenant has when it is debited. -/
theorem Held.live (h : Held s.db s.debits r) (hok : UpToDate s r) (haff : affected r.ticks r.tokens tenant = true) :
    ∃ q live, r.snapshot.quota tenant = some q ∧ s.db.quota tenant = some live ∧ SameUsage live q := by
  obtain ⟨hseen, hsome⟩ := hok tenant haff
  obtain ⟨q, hq⟩ := Option.isSome_iff_exists.mp hsome
  obtain ⟨live, hlive, hsame⟩ := h.same tenant q hq hseen
  exact ⟨q, live, hq, hlive, hsame⟩

/-- The rows of a run may be booked. -/
theorem Held.batches (h : Held s.db s.debits r) (hok : UpToDate s r) :
    Batches s.db r.snapshot.tokenRates r.ticks r.tokens := by
  refine ⟨List.subperm_of_subset h.nodupTicks fun t ht => (h.ticks t ht).1,
    List.subperm_of_subset h.nodupTokens fun e he => (h.tokens e he).1, fun t ht => (h.ticks t ht).2,
    fun e he => (h.tokens e he).2, ?_, ?_⟩
  · intro t ht
    have haff : affected r.ticks r.tokens t.tenant = true := by
      unfold affected
      rw [Bool.or_eq_true]
      exact Or.inl (List.any_eq_true.mpr ⟨t, ht, beq_self_eq_true _⟩)
    obtain ⟨_, live, -, hlive, -⟩ := h.live hok haff
    rw [hlive]
    rfl
  · intro e he
    have haff : affected r.ticks r.tokens e.callerTenant = true := by
      unfold affected
      rw [Bool.or_eq_true]
      exact Or.inr (List.any_eq_true.mpr ⟨e, he, beq_self_eq_true _⟩)
    obtain ⟨_, live, -, hlive, -⟩ := h.live hok haff
    rw [hlive]
    rfl

/-- The totals that a run writes add its rows to what is there. -/
theorem Held.totals (h : Held s.db s.debits r) (hok : UpToDate s r) {q' : TenantQuota}
    (hq' : r.quota s.db tenant = some q') :
    Totals s.db r.snapshot.rates r.snapshot.tokenRates r.ticks r.tokens tenant q' := by
  obtain ⟨live, hlive, hwrite⟩ := Option.map_eq_some_iff.mp hq'
  refine ⟨live, hlive, ?_⟩
  split at hwrite
  next haff =>
    rw [if_pos haff]
    obtain ⟨q, live', hq, hlive', hsame⟩ := h.live hok haff
    obtain rfl := Option.some.inj (hlive.symm.trans hlive')
    rw [hq] at hwrite
    subst hwrite
    exact ⟨q, creditsOf r.snapshot.credits tenant, hsame, ⟨rfl, rfl⟩, ⟨rfl, rfl⟩, ⟨rfl, rfl⟩, rfl⟩
  next hfree =>
    rw [if_neg hfree]
    subst hwrite
    exact SameUsage.refl live

theorem Held.commit_booked (h : Held s.db s.debits r) (hb : Booked s.db) (hok : UpToDate s r) :
    Booked (r.commit s.db) := by
  refine hb.book h.rates (h.batches hok) (fun tenant hsome => ?_) fun tenant q' hq' => h.totals hok hq'
  unfold Run.quota
  rw [Option.isSome_map]
  exact hsome

/-- A run that locks other rows is not touched: for the tenants that are debited it can
tell that they were. -/
theorem Held.other {r' : Run} (h : Held s.db s.debits r') (hapart : Apart r r') :
    Held (r.commit s.db)
      (fun tenant => if affected r.ticks r.tokens tenant then s.debits tenant + 1 else s.debits tenant) r' := by
  refine ⟨h.rates, ?_, h.nodupTicks, ?_, h.nodupTokens, ?_, ?_⟩
  · intro t ht
    obtain ⟨hmem, hnew⟩ := h.ticks t ht
    refine ⟨List.mem_map.mpr ⟨t, hmem, if_neg fun hid => ?_⟩, hnew⟩
    obtain ⟨t', ht', heq⟩ := List.mem_map.mp hid
    exact hapart.1 t' ht' t ht heq
  · intro e he
    obtain ⟨hmem, hnew⟩ := h.tokens e he
    refine ⟨List.mem_map.mpr ⟨e, hmem, if_neg fun hid => ?_⟩, hnew⟩
    obtain ⟨e', he', heq⟩ := List.mem_map.mp hid
    exact hapart.2 e' he' e he heq
  · intro tenant
    have hseen := h.seen tenant
    split
    next => exact Nat.le_succ_of_le hseen
    next => exact hseen
  · intro tenant q hq hseen
    split at hseen
    next =>
      have hle := h.seen tenant
      omega
    next hfree =>
      obtain ⟨live, hlive, hsame⟩ := h.same tenant q hq hseen
      refine ⟨live, ?_, hsame⟩
      unfold Run.commit book Run.quota
      dsimp only
      rw [hlive, Option.map_some, if_neg hfree]

theorem SysInv.commit {w : ℕ} (h : SysInv s) (hr : s.runs[w]? = some r) (hok : UpToDate s r) :
    SysInv
      { db := r.commit s.db
        runs := s.runs.eraseIdx w
        debits := fun tenant => if affected r.ticks r.tokens tenant then s.debits tenant + 1 else s.debits tenant } := by
  have hheld := h.held r (List.mem_of_getElem? hr)
  -- the run that is committed is apart from the others
  obtain ⟨hothers, hrest⟩ := h.apart.step Apart.symm hr
  refine ⟨hheld.commit_booked h.booked hok, fun r' hr' => ?_, hrest⟩
  exact (h.held r' (List.mem_of_mem_eraseIdx hr')).other (hothers r' hr')

/-! ## Steps -/

/-- A run that locks rows which are not locked yet. -/
theorem SysInv.claim {w : ℕ} {ticks : List UsageTick} {tokens : List TokenEvent} (h : SysInv s)
    (hr : s.runs[w]? = some r) (hc : s.Claimable r ticks tokens) :
    SysInv { s with runs := s.runs.eraseIdx w ++ [{ r with ticks, tokens }] } := by
  have hheld := h.held r (List.mem_of_getElem? hr)
  obtain ⟨⟨hnodup, -, hticks⟩, hnodup', -, htokens⟩ := hc
  refine ⟨h.booked, ?_, ?_⟩
  · intro r' hr'
    rcases List.mem_append.mp hr' with hold | hone
    · exact h.held r' (List.mem_of_mem_eraseIdx hold)
    · rw [List.mem_singleton.mp hone]
      exact ⟨hheld.rates, fun t ht => ⟨(hticks t ht).2.1, (hticks t ht).2.2.1⟩, hnodup,
        fun e he => ⟨(htokens e he).2.1, (htokens e he).2.2.1, (htokens e he).2.2.2.1⟩, hnodup',
        hheld.seen, hheld.same⟩
  · refine List.pairwise_append.mpr ⟨h.apart.sublist (List.eraseIdx_sublist _ _), List.pairwise_singleton _ _, ?_⟩
    intro r' hr' r'' hr''
    obtain rfl := List.mem_singleton.mp hr''
    have hmem := List.mem_of_mem_eraseIdx hr'
    refine ⟨fun t' ht' t ht heq => ?_, fun e' he' e he heq => ?_⟩
    · have hfree := (hticks t ht).2.2.2
      unfold System.tickLocked at hfree
      have hno := List.any_eq_false.mp hfree r' hmem
      exact hno (List.any_eq_true.mpr ⟨t', ht', beq_iff_eq.mpr heq⟩)
    · have hfree := (htokens e he).2.2.2.2
      unfold System.tokenLocked at hfree
      have hno := List.any_eq_false.mp hfree r' hmem
      exact hno (List.any_eq_true.mpr ⟨e', he', beq_iff_eq.mpr heq⟩)

theorem SysInv.start (h : SysInv s) :
    SysInv { s with runs := s.runs ++ [{ snapshot := s.db, seen := s.debits }] } := by
  refine ⟨h.booked, ?_, ?_⟩
  · intro r hr
    rcases List.mem_append.mp hr with hold | hone
    · exact h.held r hold
    · rw [List.mem_singleton.mp hone]
      refine ⟨h.booked.rates, fun t ht => ?_, List.nodup_nil, fun e he => ?_, List.nodup_nil, fun _ => Nat.le_refl _,
        fun tenant q hq _ => ⟨q, hq, SameUsage.refl q⟩⟩
      · cases ht
      · cases he
  · refine List.pairwise_append.mpr ⟨h.apart, List.pairwise_singleton _ _, fun r _ r' hr' => ?_⟩
    rw [List.mem_singleton.mp hr']
    refine ⟨fun t _ t' ht' => ?_, fun e _ e' he' => ?_⟩
    · cases ht'
    · cases he'

/-- One step keeps the invariant. -/
theorem SysInv.next {a : Act} (h : SysInv s) (hpos : ActNonneg a) (hok : CommitOk s a) (hnext : s.next a = some s') : SysInv s' := by
  cases a with
  | op o =>
    by_cases hrun : o = .run
    · subst hrun
      cases hnext
    · have hmap : (s.db.next o).map (fun db => { s with db }) = some s' := by
        cases o with
        | run => exact absurd rfl hrun
        | _ => exact hnext
      obtain ⟨db, hdb, rfl⟩ := Option.map_eq_some_iff.mp hmap
      exact h.grows (h.booked.next hpos hdb) (grows_next hrun hdb)
  | insertTenants =>
    obtain rfl := Option.some.inj hnext
    exact h.grows h.booked.insertTenants grows_insertTenants
  | start =>
    obtain rfl := Option.some.inj hnext
    exact h.start
  | claim w ticks tokens =>
    dsimp only [System.next] at hnext
    split at hnext
    next => cases hnext
    next r hr =>
      split at hnext
      next hc =>
        obtain rfl := Option.some.inj hnext
        exact h.claim hr hc.2.2
      next => cases hnext
  | commit w =>
    dsimp only [System.next] at hnext
    split at hnext
    next => cases hnext
    next r hr =>
      obtain rfl := Option.some.inj hnext
      exact h.commit hr (upToDate_of_rows (hok r hr).1 (hok r hr).2)
  | abort w =>
    obtain rfl := Option.some.inj hnext
    exact ⟨h.booked, fun r hr => h.held r (List.mem_of_mem_eraseIdx hr), h.apart.sublist (List.eraseIdx_sublist _ _)⟩
  | recalculate tenant =>
    obtain rfl := Option.some.inj hnext
    exact h.grows h.booked.recalculate grows_recalculate

/-- **Workers side by side.** In every state that is reached, the totals of each tenant
are all of what is marked as processed: as long as each run is committed only when no
other has been committed since its snapshot for a tenant that it debits, and each
tenant that it debits had totals then. -/
theorem debited_of_reach (h : Reach System.next (fun s => NewDb s.db ∧ s.runs = [])
    (fun s a => ActNonneg a ∧ CommitOk s a) s) : Debited s.db := by
  have hinv : SysInv s := by
    refine h.invariant (fun s hs => ⟨hs.1.booked, ?_, ?_⟩) fun _ _ _ hs hok hnext => hs.next hok.1 hok.2 hnext
    · rw [hs.2]
      exact fun r hr => by cases hr
    · rw [hs.2]
      exact List.Pairwise.nil
  exact ⟨hinv.booked.account, hinv.booked.tickTenant, hinv.booked.tokenTenant⟩

instance (o : Op) : Decidable (OpNonneg o) := by
  cases o
  all_goals
    unfold OpNonneg
    infer_instance

instance (a : Act) : Decidable (ActNonneg a) := by
  cases a
  all_goals
    unfold ActNonneg
    infer_instance

instance (s : System) (r : Run) (tenant : String) : Decidable (s.Current r tenant) := by
  unfold System.Current
  infer_instance

instance (s : System) (a : Act) : Decidable (CommitOk s a) := by
  cases a
  case commit w => exact Option.decidableForallMem _
  all_goals
    unfold CommitOk
    infer_instance

namespace Sample

/-- Two ticks come in. -/
def twoTicks : List Act := [.op (.tick minute), .op (.tick minute), .insertTenants]

/-- The second of them. -/
def second : UsageTick := { minute with id := 1 }

/-- Two runs, one after the other. -/
def inTurn : List Act :=
  twoTicks ++ [.start, .claim 0 [minute] [], .commit 0, .start, .claim 0 [second] [], .commit 0]

/-- Two runs whose statements start at the same time. -/
def sideBySide : List Act :=
  twoTicks ++ [.start, .start, .claim 0 [minute] [], .claim 0 [second] [], .commit 0, .commit 0]

/-- The usage of the tenant. -/
def usageOf (s : System) : Option (ℤ × ℤ) :=
  (s.db.quota "t").map fun q => (q.inferenceUsedCents, q.inferenceCarryNumer)

end Sample

/-- Two minutes are 28 cents and a carry when the runs take turns. -/
theorem debited_in_turn :
    ((exec System.next (fun s a => ActNonneg a ∧ CommitOk s a) { db := Sample.priced } Sample.inTurn).bind
      Sample.usageOf) = some (28, 1200000) ∧
    ∀ s ∈ exec System.next (fun s a => ActNonneg a ∧ CommitOk s a) { db := Sample.priced } Sample.inTurn,
      Debited s.db :=
  ⟨by decide +kernel, fun _ hs =>
    debited_of_reach (Reach.of_exec _ _ (.init ⟨Sample.newDb_priced, rfl⟩) hs)⟩

/-- Two runs start at the same time, and the second to be committed overwrites what the
first has debited. -/
theorem debit_overwritten : ¬ ∀ s, Reach System.next (fun s => NewDb s.db ∧ s.runs = [])
    (fun _ a => ActNonneg a) s → Debited s.db := by
  intro h
  have hrun : ((exec System.next (fun _ a => ActNonneg a) { db := Sample.priced } Sample.sideBySide).map
      fun s => (Sample.usageOf s, tickDebits false "t" s.db.ticks)) = some (some (14, 600000), 102000000) := by
    decide +kernel
  obtain ⟨s, hs, hend⟩ := Option.map_eq_some_iff.mp hrun
  obtain ⟨husage, hdebits⟩ := Prod.mk.inj hend
  obtain ⟨q, hq, hfields⟩ := Option.map_eq_some_iff.mp husage
  obtain ⟨hused, hcarry⟩ := Prod.mk.inj hfields
  have hacc := (h s (Reach.of_exec _ _ (.init ⟨Sample.newDb_priced, rfl⟩) hs)).account "t" q hq
  have hsum := hacc.inference.sum
  rw [hused, hcarry, hdebits] at hsum
  exact absurd hsum (by decide)

end Inferx.Billing
