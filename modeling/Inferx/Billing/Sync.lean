import Mathlib.Data.List.Dedup
import Inferx.Billing.Workers

/-!
# The flag of a tenant in two stores

Whether a tenant is stopped is computed in the billing database and copied to the
tenant object that the gateway reads. Three writers copy it: the job
`quota-check.sh`, which posts the flags that its SQL step has changed; a request that
adds credits; and a request that sets the flag.

A writer that fails between the database and the object leaves the two apart. The job
does not report the change again, and a request with the same payment is taken for
done. Two writers that overlap may copy in the wrong order. And the object is read from a
cache that follows the store by its watch: where it lags behind, a writer may find that
there is nothing to do.
-/

namespace Inferx.Billing

/-! ## Writers -/

/-- A tenant object, as far as its flag goes. -/
structure TenantObj where
  /-- `status.quota_exceeded` -/
  quotaExceeded : Bool
  /-- its revision -/
  revision : ℕ
  deriving DecidableEq

/-- Who posts a flag. -/
inductive Origin where
  /-- a client -/
  | client
  /-- the job, with the posts that are left -/
  | job (rest : List (String × Bool))
  deriving DecidableEq

/-- A request or a job in progress. -/
inductive Task where
  /-- `SetTenantQuotaExceeded` is about to read the tenant -/
  | postGet (tenant : String) (flag : Bool) (origin : Origin)
  /-- it is about to write over a revision -/
  | postWrite (tenant : String) (flag : Bool) (revision : ℕ) (origin : Origin)
  /-- `AddTenantCredits` is about to recalculate the quota -/
  | recalc (c : Credit)
  /-- it is about to read the tenant -/
  | creditGet (c : Credit) (flag : Bool)
  /-- it is about to write the tenant -/
  | creditWrite (c : Credit) (flag : Bool)
  deriving DecidableEq

/-- What is to be done again. -/
inductive Retry where
  /-- the job -/
  | job
  /-- a request that sets a flag -/
  | set (tenant : String) (flag : Bool)
  /-- a request that adds credits -/
  | credit (c : Credit)
  deriving DecidableEq

/-- The billing database, the tenant objects and what is in progress. -/
structure Sync where
  /-- the database -/
  db : Db := {}
  /-- the tenant objects -/
  tenants : String → Option TenantObj := fun _ => none
  /-- the revision of the object store -/
  revision : ℕ := 1
  /-- the tenant objects in the cache that `Get` reads -/
  seen : String → Option TenantObj := fun _ => none
  /-- the writes that are still on their way to the cache -/
  watched : List (String × TenantObj) := []
  /-- requests and jobs in progress -/
  tasks : List Task := []
  /-- failed ones that are to be done again -/
  retries : List Retry := []
  /-- credits that were asked for -/
  asked : List Credit := []

/-- The flag of a tenant in the database. -/
def flagOf (db : Db) (tenant : String) : Bool := ((db.quota tenant).map TenantQuota.quotaExceeded).getD false

/-- The rows that `update-and-check-quota.sql` returns: the tenants whose flag has
changed. -/
def changed (db : Db) : List (String × Bool) :=
  let tenants := (tickBatch (insertTenants db)).map UsageTick.tenant ++
    (tokenBatch (insertTenants db)).map TokenEvent.callerTenant
  (tenants.dedup.filter fun t => flagOf (updateAndCheckQuota db) t != flagOf (insertTenants db) t).map
    fun t => (t, flagOf (updateAndCheckQuota db) t)

/-- The next post of a job. -/
def Origin.next : Origin → Option Task
  | .job ((tenant, flag) :: rest) => some (.postGet tenant flag (.job rest))
  | _ => none

/-- What is to be done again when a request or a job fails. -/
def Task.retry : Task → Retry
  | .postGet tenant flag .client => .set tenant flag
  | .postWrite tenant flag _ .client => .set tenant flag
  | .postGet _ _ (.job _) => .job
  | .postWrite _ _ _ (.job _) => .job
  | .recalc c => .credit c
  | .creditGet c _ => .credit c
  | .creditWrite c _ => .credit c

/-- The flag of a tenant object is written. -/
def Sync.write (s : Sync) (tenant : String) (flag : Bool) : Sync :=
  let obj : TenantObj := { quotaExceeded := flag, revision := s.revision + 1 }
  { s with
    tenants := fun a => if a = tenant then some obj else s.tenants a
    revision := s.revision + 1
    watched := s.watched ++ [(tenant, obj)] }

/-- One step of a request: what becomes of the stores and of the request, or that it
is answered with an error. -/
def Sync.advance (s : Sync) : Task → Option (Sync × Option Task)
  | .postGet tenant flag origin =>
    match s.seen tenant with
    | none => none
    | some obj =>
      if obj.quotaExceeded = flag then some (s, origin.next)
      else if obj.revision = 0 then none
      else some (s, some (.postWrite tenant flag obj.revision origin))
  -- a conflict comes back as a common error, which the retry loop does not recognise
  | .postWrite tenant flag revision origin =>
    if (s.tenants tenant).map TenantObj.revision = some revision then some (s.write tenant flag, origin.next)
    else none
  | .recalc c =>
    let db := recalculateTenantQuota s.db c.tenant
    some ({ s with db }, some (.creditGet c (flagOf db c.tenant)))
  | .creditGet c flag =>
    match s.seen c.tenant with
    | none => none
    | some obj => if obj.quotaExceeded = flag then some (s, none) else some (s, some (.creditWrite c flag))
  -- revision 0: whatever the store has is written over
  | .creditWrite c flag => if (s.tenants c.tenant).isSome then some (s.write c.tenant flag, none) else none

/-- What happens. -/
inductive Event where
  /-- a row comes in -/
  | op (o : Op)
  /-- the job starts with its SQL step -/
  | job
  /-- a client sets a flag -/
  | set (tenant : String) (flag : Bool)
  /-- a client adds credits, and they are inserted -/
  | add (c : Credit)
  /-- a client adds credits, and the insert fails -/
  | addFails (c : Credit)
  /-- a request or a job makes its next step -/
  | step (i : ℕ)
  /-- the next step of a request or a job fails -/
  | fail (i : ℕ)
  /-- the next write reaches the cache -/
  | deliver

/-- A row comes in. A run is an event of its own. -/
def Sync.insert (s : Sync) : Op → Option Sync
  | .run => none
  | o => (s.db.next o).map fun db => { s with db }

/-- One event. -/
def Sync.next (s : Sync) : Event → Option Sync
  | .op o => s.insert o
  | .job => some { s with
      db := updateAndCheckQuota s.db
      tasks := s.tasks ++ (Origin.job (changed s.db)).next.toList
      retries := s.retries.erase .job }
  | .set tenant flag => some { s with
      tasks := s.tasks ++ [.postGet tenant flag .client]
      retries := s.retries.erase (.set tenant flag) }
  | .add c =>
    -- a payment that has been credited is taken for done
    let tasks := if credited s.db.credits c.tenant c.paymentRef then s.tasks else s.tasks ++ [.recalc c]
    some { s with
      db := addTenantCredit s.db c
      tasks
      retries := s.retries.erase (.credit c)
      asked := s.asked ++ [c] }
  | .addFails c => some { s with retries := s.retries ++ [.credit c] }
  | .step i =>
    match s.tasks[i]? with
    | none => none
    | some task =>
      match s.advance task with
      | none => some { s with tasks := s.tasks.eraseIdx i, retries := s.retries ++ [task.retry] }
      | some (s', task') => some { s' with tasks := s.tasks.eraseIdx i ++ task'.toList }
  | .fail i =>
    match s.tasks[i]? with
    | none => none
    | some task => some { s with tasks := s.tasks.eraseIdx i, retries := s.retries ++ [task.retry] }
  | .deliver =>
    match s.watched with
    | [] => none
    | (tenant, obj) :: watched =>
      some { s with seen := fun a => if a = tenant then some obj else s.seen a, watched }

/-- All has been done, and nothing is to be done again. -/
def Sync.Quiet (s : Sync) : Prop := s.tasks = [] ∧ s.retries = []

/-- The flags of the tenant objects are those of the database. -/
def Sync.InStep (s : Sync) : Prop :=
  ∀ tenant obj, s.tenants tenant = some obj → obj.quotaExceeded = flagOf s.db tenant

/-- A credit for the same payment. -/
def samePayment (c c' : Credit) : Bool := c'.tenant == c.tenant && c'.paymentRef == c.paymentRef

/-- Each payment that was asked for has been credited once. -/
def Sync.CreditedOnce (s : Sync) : Prop :=
  ∀ c ∈ s.asked, c.paymentRef.isSome = true → (s.db.credits.filter (samePayment c)).length = 1

/-! ## What is still to be written -/

/-- The flags that a job has still to write. -/
def Origin.rest : Origin → List (String × Bool)
  | .client => []
  | .job rest => rest

/-- The flags that are still to be written. -/
def Task.pending : Task → List (String × Bool)
  | .postGet tenant flag origin => (tenant, flag) :: origin.rest
  | .postWrite tenant flag _ origin => (tenant, flag) :: origin.rest
  | .recalc _ => []
  | .creditGet c flag => [(c.tenant, flag)]
  | .creditWrite c flag => [(c.tenant, flag)]

/-- Does it copy a flag that has been changed? A client's post does not. -/
def Task.copies : Task → Bool
  | .postGet _ _ .client => false
  | .postWrite _ _ _ .client => false
  | .recalc _ => false
  | _ => true

/-- The tenant that the next step looks up in the cache. -/
def Task.reads : Task → Option String
  | .postGet tenant _ _ => some tenant
  | .creditGet c _ => some c.tenant
  | _ => none

/-- Nothing in progress has still to write a tenant. -/
def Sync.Idle (s : Sync) (tenant : String) : Prop := ∀ task ∈ s.tasks, ∀ p ∈ task.pending, p.1 ≠ tenant

/-- A step of the database changes the flag of a tenant only while nothing in progress
has still to write it. -/
def Sync.Alone (s : Sync) (db : Db) : Prop := ∀ tenant, flagOf db tenant ≠ flagOf s.db tenant → s.Idle tenant

/-- Events that keep the flags in step: steps of the database do not overlap with
writers of the same tenant, nothing fails after its step of the database, a client
sets the flag that the database has, and the cache has seen the last write of a tenant
that is read. -/
def EventOk (s : Sync) : Event → Prop
  | .job => s.Alone (updateAndCheckQuota s.db)
  | .set tenant flag => flag = flagOf s.db tenant
  | .step i => ∀ task ∈ s.tasks[i]?, (task.copies = true → (s.advance task).isSome = true) ∧
    (∀ c, task = .recalc c → s.Alone (recalculateTenantQuota s.db c.tenant)) ∧
    ∀ tenant ∈ task.reads, s.seen tenant = s.tenants tenant
  | .fail i => ∀ task ∈ s.tasks[i]?, task.copies = false
  | _ => True

/-! ## Flags -/

variable {s s' : Sync} {db db' : Db} {tenant : String}

theorem flagOf_congr (h : db'.quota = db.quota) : flagOf db' tenant = flagOf db tenant := by
  unfold flagOf
  rw [h]

theorem flagOf_insertTenants : flagOf (insertTenants db) tenant = flagOf db tenant := by
  unfold flagOf insertTenants
  dsimp only
  split
  next =>
    rcases db.quota tenant with _ | q
    · rfl
    · rfl
  next => rfl

theorem flagOf_recalculate {t : String} (h : tenant ≠ t) :
    flagOf (recalculateTenantQuota db t) tenant = flagOf db tenant := by
  unfold flagOf recalculateTenantQuota
  dsimp only
  rw [if_neg h]

/-- A flag that is reported is the new one. -/
theorem changed_sound {p : String × Bool} (h : p ∈ changed db) : p.2 = flagOf (updateAndCheckQuota db) p.1 := by
  obtain ⟨t, -, rfl⟩ := List.mem_map.mp h
  rfl

/-- Each flag that changes is reported. -/
theorem changed_complete (h : flagOf (updateAndCheckQuota db) tenant ≠ flagOf db tenant) :
    (tenant, flagOf (updateAndCheckQuota db) tenant) ∈ changed db := by
  have hdiff : flagOf (updateAndCheckQuota db) tenant ≠ flagOf (insertTenants db) tenant := by
    rw [flagOf_insertTenants]
    exact h
  refine List.mem_map.mpr ⟨tenant, List.mem_filter.mpr ⟨List.mem_dedup.mpr ?_, by simpa using hdiff⟩, rfl⟩
  -- a tenant that is not affected keeps its totals
  by_contra hnot
  refine hdiff ?_
  have hfree : affected (tickBatch (insertTenants db)) (tokenBatch (insertTenants db)) tenant = false := by
    by_contra haff
    refine hnot (List.mem_append.mpr ?_)
    rcases Bool.or_eq_true_iff.mp (Bool.not_eq_false _ ▸ haff) with hany | hany
    · obtain ⟨t, ht, heq⟩ := List.any_eq_true.mp hany
      exact Or.inl (List.mem_map.mpr ⟨t, ht, beq_iff_eq.mp heq⟩)
    · obtain ⟨e, he, heq⟩ := List.any_eq_true.mp hany
      exact Or.inr (List.mem_map.mpr ⟨e, he, beq_iff_eq.mp heq⟩)
  unfold flagOf updateAndCheckQuota settle book
  dsimp only
  rw [hfree]
  rcases (insertTenants db).quota tenant with _ | q
  · rfl
  · rfl

theorem quota_next {o : Op} (hne : o ≠ .run) (h : db.next o = some db') : db'.quota = db.quota := by
  cases o with
  | tick t =>
    obtain rfl := Option.some.inj h
    rfl
  | token e =>
    unfold Db.next at h
    dsimp only at h
    split at h
    next =>
      obtain rfl := Option.some.inj h
      rfl
    next =>
      obtain rfl := Option.some.inj h
      rfl
  | credit c =>
    obtain rfl := Option.some.inj h
    unfold addTenantCredit
    split
    next => rfl
    next => rfl
  | rate r =>
    obtain rfl := Option.some.inj h
    rfl
  | tokenRate r =>
    obtain rfl := Option.some.inj h
    rfl
  | run => exact absurd rfl hne

/-! ## Keeping in step -/

/-- What is pending is what the database has, and a flag that is not in step is
pending. -/
structure Copying (s : Sync) : Prop where
  /-- what is pending is up to date -/
  pending : ∀ task ∈ s.tasks, ∀ p ∈ task.pending, p.2 = flagOf s.db p.1
  /-- what is not in step is being copied -/
  copied : ∀ tenant obj, s.tenants tenant = some obj → obj.quotaExceeded ≠ flagOf s.db tenant →
    ∃ task ∈ s.tasks, task.copies = true ∧ (tenant, flagOf s.db tenant) ∈ task.pending

theorem Copying.inStep (h : Copying s) (hquiet : s.Quiet) : s.InStep := by
  intro tenant obj hobj
  by_contra hne
  obtain ⟨task, htask, -⟩ := h.copied tenant obj hobj hne
  rw [hquiet.1] at htask
  cases htask

/-- More is in progress. -/
theorem Copying.more (h : Copying s) {tasks : List Task} (hdb : ∀ tenant, flagOf db tenant = flagOf s.db tenant)
    (hpending : ∀ task ∈ tasks, ∀ p ∈ task.pending, p.2 = flagOf db p.1) {retries : List Retry}
    {asked : List Credit} : Copying { s with db, tasks := s.tasks ++ tasks, retries, asked } := by
  refine ⟨fun task htask p hp => ?_, fun tenant obj hobj hne => ?_⟩
  · rcases List.mem_append.mp htask with hold | hnew
    · exact (h.pending task hold p hp).trans (hdb p.1).symm
    · exact hpending task hnew p hp
  · have hne' : obj.quotaExceeded ≠ flagOf s.db tenant := fun heq => hne (heq.trans (hdb tenant).symm)
    obtain ⟨task, htask, hcopies, hp⟩ := h.copied tenant obj hobj hne'
    exact ⟨task, List.mem_append_left _ htask, hcopies, (hdb tenant).symm ▸ hp⟩

theorem pending_next (o : Origin) {task : Task} (h : task ∈ o.next.toList) : task.pending = o.rest ∧ task.copies = true := by
  rcases o with _ | (_ | ⟨⟨t, v⟩, rest⟩)
  · cases h
  · cases h
  · obtain rfl := List.mem_singleton.mp h
    exact ⟨rfl, rfl⟩

/-- The SQL step of the job. -/
theorem Copying.job (h : Copying s) (halone : s.Alone (updateAndCheckQuota s.db)) {retries : List Retry} :
    Copying { s with
      db := updateAndCheckQuota s.db
      tasks := s.tasks ++ (Origin.job (changed s.db)).next.toList
      retries } := by
  refine ⟨fun task htask p hp => ?_, fun tenant obj hobj hne => ?_⟩
  · rcases List.mem_append.mp htask with hold | hnew
    · have hkept : flagOf (updateAndCheckQuota s.db) p.1 = flagOf s.db p.1 := by
        by_contra hdiff
        exact halone p.1 hdiff task hold p hp rfl
      exact (h.pending task hold p hp).trans hkept.symm
    · rw [(pending_next _ hnew).1] at hp
      exact changed_sound hp
  · by_cases hkept : flagOf (updateAndCheckQuota s.db) tenant = flagOf s.db tenant
    · dsimp only at hne
      rw [hkept] at hne
      obtain ⟨task, htask, hcopies, hp⟩ := h.copied tenant obj hobj hne
      refine ⟨task, List.mem_append_left _ htask, hcopies, ?_⟩
      dsimp only
      rw [hkept]
      exact hp
    · -- the change is reported, so there is a post
      have hmem := changed_complete hkept
      obtain ⟨task, htask⟩ : ∃ task, task ∈ (Origin.job (changed s.db)).next.toList := by
        rcases hchanged : changed s.db with _ | ⟨⟨t, v⟩, rest⟩
        · rw [hchanged] at hmem
          cases hmem
        · exact ⟨_, List.mem_singleton_self _⟩
      obtain ⟨hpending, hcopies⟩ := pending_next _ htask
      exact ⟨task, List.mem_append_right _ htask, hcopies, hpending ▸ hmem⟩

/-! ## Steps of a request -/

/-- A request steps: what is pending afterwards was pending before, and what is not
pending any more is in step. -/
theorem Copying.replace (h : Copying s) {i : ℕ} {task : Task} (hi : s.tasks[i]? = some task) {new : List Task}
    {tenants : String → Option TenantObj} {revision : ℕ} {watched : List (String × TenantObj)}
    {retries : List Retry}
    (hnew : ∀ task' ∈ new, (∀ p ∈ task'.pending, p ∈ task.pending) ∧ (task.copies = true → task'.copies = true))
    (hstep : ∀ tenant obj, tenants tenant = some obj → obj.quotaExceeded ≠ flagOf s.db tenant →
      (∃ obj', s.tenants tenant = some obj' ∧ obj'.quotaExceeded ≠ flagOf s.db tenant) ∧
        (task.copies = true → (tenant, flagOf s.db tenant) ∈ task.pending →
          ∃ task' ∈ new, (tenant, flagOf s.db tenant) ∈ task'.pending)) :
    Copying { s with tenants, revision, watched, tasks := s.tasks.eraseIdx i ++ new, retries } := by
  have htask := List.mem_of_getElem? hi
  refine ⟨fun task' htask' p hp => ?_, fun tenant obj hobj hne => ?_⟩
  · rcases List.mem_append.mp htask' with hold | hone
    · exact h.pending task' (List.mem_of_mem_eraseIdx hold) p hp
    · exact h.pending task htask p ((hnew task' hone).1 p hp)
  · obtain ⟨⟨obj', hobj', hne'⟩, hrest⟩ := hstep tenant obj hobj hne
    obtain ⟨task', htask', hcopies, hp⟩ := h.copied tenant obj' hobj' hne'
    rcases List.eq_or_mem_eraseIdx hi htask' with rfl | hold
    · obtain ⟨task'', hmem, hp'⟩ := hrest hcopies hp
      exact ⟨task'', List.mem_append_right _ hmem, (hnew task'' hmem).2 hcopies, hp'⟩
    · exact ⟨task', List.mem_append_left _ hold, hcopies, hp⟩

/-- A flag has been written, or was there already. -/
theorem Copying.written (h : Copying s) {i : ℕ} {task : Task} (hi : s.tasks[i]? = some task) {flag : Bool}
    (origin : Origin) (hpending : task.pending = (tenant, flag) :: origin.rest)
    {tenants : String → Option TenantObj} {revision : ℕ} {watched : List (String × TenantObj)}
    {retries : List Retry}
    (hwritten : ∀ obj, tenants tenant = some obj → obj.quotaExceeded = flag)
    (hother : ∀ a, a ≠ tenant → tenants a = s.tenants a) :
    Copying { s with tenants, revision, watched, tasks := s.tasks.eraseIdx i ++ origin.next.toList, retries } := by
  have hflag : flag = flagOf s.db tenant :=
    h.pending task (List.mem_of_getElem? hi) (tenant, flag) (hpending ▸ List.mem_cons_self)
  refine h.replace hi (fun task' htask' => ?_) fun a obj hobj hne => ?_
  · obtain ⟨hrest, hcopies⟩ := pending_next origin htask'
    refine ⟨fun p hp => ?_, fun _ => hcopies⟩
    rw [hpending]
    exact List.mem_cons_of_mem _ (hrest ▸ hp)
  · have ha : a ≠ tenant := by
      rintro rfl
      exact hne ((hwritten obj hobj).trans hflag)
    refine ⟨⟨obj, hother a ha ▸ hobj, hne⟩, fun _ hp => ?_⟩
    rw [hpending] at hp
    rcases List.mem_cons.mp hp with heq | hrest
    · exact absurd (congrArg Prod.fst heq) ha
    · rcases origin with _ | (_ | ⟨⟨t, v⟩, rest⟩)
      · cases hrest
      · cases hrest
      · exact ⟨_, List.mem_singleton_self _, hrest⟩

/-- A request goes on with the same flags to write. -/
theorem Copying.goesOn (h : Copying s) {i : ℕ} {task : Task} (task' : Task) (hi : s.tasks[i]? = some task)
    (hpending : task'.pending = task.pending) (hcopies : task'.copies = task.copies) {retries : List Retry} :
    Copying { s with tasks := s.tasks.eraseIdx i ++ [task'], retries } := by
  refine h.replace hi (fun task'' htask'' => ?_) fun a obj hobj hne => ⟨⟨obj, hobj, hne⟩, fun _ hp => ?_⟩
  · rw [List.mem_singleton.mp htask'']
    exact ⟨fun p hp => hpending ▸ hp, fun hc => hcopies.trans hc⟩
  · exact ⟨task', List.mem_singleton_self _, hpending ▸ hp⟩

/-- A request that copies nothing fails. -/
theorem Copying.dropped (h : Copying s) {i : ℕ} {task : Task} (hi : s.tasks[i]? = some task)
    (hcopies : task.copies = false) {retries : List Retry} :
    Copying { s with tasks := s.tasks.eraseIdx i, retries } := by
  have hdrop : Copying { s with tasks := s.tasks.eraseIdx i ++ [], retries } := by
    refine h.replace hi (fun _ hmem => ?_) fun a obj hobj hne => ⟨⟨obj, hobj, hne⟩, fun hc => ?_⟩
    · cases hmem
    · rw [hcopies] at hc
      cases hc
  rw [List.append_nil] at hdrop
  exact hdrop

/-- The quota is recalculated, and the flag is still to be copied. -/
theorem Copying.recalc (h : Copying s) {i : ℕ} {c : Credit} (hi : s.tasks[i]? = some (.recalc c))
    (halone : s.Alone (recalculateTenantQuota s.db c.tenant)) :
    Copying { s with
      db := recalculateTenantQuota s.db c.tenant
      tasks := s.tasks.eraseIdx i ++ [.creditGet c (flagOf (recalculateTenantQuota s.db c.tenant) c.tenant)] } := by
  refine ⟨fun task htask p hp => ?_, fun tenant obj hobj hne => ?_⟩
  · rcases List.mem_append.mp htask with hold | hone
    · have hmem := List.mem_of_mem_eraseIdx hold
      have hkept : flagOf (recalculateTenantQuota s.db c.tenant) p.1 = flagOf s.db p.1 := by
        by_contra hdiff
        exact halone p.1 hdiff task hmem p hp rfl
      exact (h.pending task hmem p hp).trans hkept.symm
    · rw [List.mem_singleton.mp hone] at hp
      rw [List.mem_singleton.mp hp]
  · by_cases hmine : tenant = c.tenant
    · subst hmine
      exact ⟨_, List.mem_append_right _ (List.mem_singleton_self _), rfl, List.mem_singleton_self _⟩
    · dsimp only at hne ⊢
      rw [flagOf_recalculate hmine] at hne ⊢
      obtain ⟨task, htask, hcopies, hp⟩ := h.copied tenant obj hobj hne
      rcases List.eq_or_mem_eraseIdx hi htask with rfl | hold
      · cases hcopies
      · exact ⟨task, List.mem_append_left _ hold, hcopies, hp⟩

theorem tenants_write {flag : Bool} {obj : TenantObj} (h : (s.write tenant flag).tenants tenant = some obj) :
    obj.quotaExceeded = flag := by
  unfold Sync.write at h
  dsimp only at h
  rw [if_pos rfl] at h
  obtain rfl := Option.some.inj h
  rfl

theorem tenants_write_ne {flag : Bool} {a : String} (h : a ≠ tenant) :
    (s.write tenant flag).tenants a = s.tenants a := if_neg h

/-- One step of a request. -/
theorem Copying.advance (h : Copying s) {i : ℕ} {task : Task} (hi : s.tasks[i]? = some task)
    (halone : ∀ c, task = .recalc c → s.Alone (recalculateTenantQuota s.db c.tenant))
    (hseen : ∀ tenant ∈ task.reads, s.seen tenant = s.tenants tenant) {task' : Option Task}
    (hadv : s.advance task = some (s', task')) :
    Copying { s' with tasks := s.tasks.eraseIdx i ++ task'.toList } := by
  cases task with
  | postGet tenant flag origin =>
    dsimp only [Sync.advance] at hadv
    split at hadv
    next => cases hadv
    next obj hobj =>
      split at hadv
      next hflag =>
        obtain ⟨rfl, rfl⟩ := Prod.mk.inj (Option.some.inj hadv)
        refine h.written hi origin rfl (fun obj' hobj' => ?_) fun _ _ => rfl
        rw [hseen tenant rfl] at hobj
        rw [← Option.some.inj (hobj.symm.trans hobj')]
        exact hflag
      next =>
        split at hadv
        next => cases hadv
        next =>
          obtain ⟨rfl, rfl⟩ := Prod.mk.inj (Option.some.inj hadv)
          refine h.goesOn (.postWrite tenant flag obj.revision origin) hi rfl ?_
          cases origin with
          | client => rfl
          | job rest => rfl
  | postWrite tenant flag revision origin =>
    dsimp only [Sync.advance] at hadv
    split at hadv
    next =>
      obtain ⟨rfl, rfl⟩ := Prod.mk.inj (Option.some.inj hadv)
      exact h.written hi origin rfl (fun _ hobj => tenants_write hobj) fun _ ha => tenants_write_ne ha
    next => cases hadv
  | recalc c =>
    obtain ⟨rfl, rfl⟩ := Prod.mk.inj (Option.some.inj hadv)
    exact h.recalc hi (halone c rfl)
  | creditGet c flag =>
    dsimp only [Sync.advance] at hadv
    split at hadv
    next => cases hadv
    next obj hobj =>
      split at hadv
      next hflag =>
        obtain ⟨rfl, rfl⟩ := Prod.mk.inj (Option.some.inj hadv)
        refine h.written hi .client rfl (fun obj' hobj' => ?_) fun _ _ => rfl
        rw [hseen c.tenant rfl] at hobj
        rw [← Option.some.inj (hobj.symm.trans hobj')]
        exact hflag
      next =>
        obtain ⟨rfl, rfl⟩ := Prod.mk.inj (Option.some.inj hadv)
        exact h.goesOn (.creditWrite c flag) hi rfl rfl
  | creditWrite c flag =>
    dsimp only [Sync.advance] at hadv
    split at hadv
    next =>
      obtain ⟨rfl, rfl⟩ := Prod.mk.inj (Option.some.inj hadv)
      exact h.written hi .client rfl (fun _ hobj => tenants_write hobj) fun _ ha => tenants_write_ne ha
    next => cases hadv

/-- One event keeps the flags in step, or being copied. -/
theorem Copying.next (h : Copying s) {e : Event} (hok : EventOk s e) (hnext : s.next e = some s') : Copying s' := by
  cases e with
  | op o =>
    by_cases hrun : o = .run
    · subst hrun
      cases hnext
    · have hmap : (s.db.next o).map (fun db => { s with db }) = some s' := by
        cases o with
        | run => exact absurd rfl hrun
        | _ => exact hnext
      obtain ⟨db, hdb, rfl⟩ := Option.map_eq_some_iff.mp hmap
      have hmore : Copying { s with db, tasks := s.tasks ++ [] } :=
        h.more (fun _ => flagOf_congr (quota_next hrun hdb)) fun _ hmem => by cases hmem
      rw [List.append_nil] at hmore
      exact hmore
  | job =>
    obtain rfl := Option.some.inj hnext
    exact h.job hok
  | set tenant flag =>
    obtain rfl := Option.some.inj hnext
    refine h.more (fun _ => rfl) fun task htask p hp => ?_
    rw [List.mem_singleton.mp htask] at hp
    rw [List.mem_singleton.mp hp]
    exact hok
  | add c =>
    obtain rfl := Option.some.inj hnext
    have hflag : ∀ tenant, flagOf (addTenantCredit s.db c) tenant = flagOf s.db tenant := by
      intro tenant
      refine flagOf_congr ?_
      unfold addTenantCredit
      split
      next => rfl
      next => rfl
    split
    next =>
      have hmore : Copying { s with
          db := addTenantCredit s.db c
          tasks := s.tasks ++ []
          retries := s.retries.erase (.credit c)
          asked := s.asked ++ [c] } := h.more hflag fun _ hmem => by cases hmem
      rw [List.append_nil] at hmore
      exact hmore
    next =>
      refine h.more hflag fun task htask p hp => ?_
      rw [List.mem_singleton.mp htask] at hp
      cases hp
  | addFails c =>
    obtain rfl := Option.some.inj hnext
    exact ⟨h.pending, h.copied⟩
  | step i =>
    dsimp only [Sync.next] at hnext
    split at hnext
    next => cases hnext
    next task hi =>
      obtain ⟨hsome, halone, hseen⟩ := hok task hi
      split at hnext
      next hnone =>
        obtain rfl := Option.some.inj hnext
        refine h.dropped hi ?_
        by_contra hcopies
        have hadv := hsome (Bool.not_eq_false _ ▸ hcopies)
        rw [hnone] at hadv
        cases hadv
      next s'' task' hadv =>
        obtain rfl := Option.some.inj hnext
        exact h.advance hi halone hseen hadv
  | fail i =>
    dsimp only [Sync.next] at hnext
    split at hnext
    next => cases hnext
    next task hi =>
      obtain rfl := Option.some.inj hnext
      exact h.dropped hi (hok task hi)
  | deliver =>
    dsimp only [Sync.next] at hnext
    split at hnext
    next => cases hnext
    next =>
      obtain rfl := Option.some.inj hnext
      exact ⟨h.pending, h.copied⟩

/-! ## Payments -/

/-- A payment is credited once at most, and one that was asked for is. -/
structure Payments (credits : List Credit) (asked : List Credit) : Prop where
  /-- once at most -/
  unique : ∀ c : Credit, c.paymentRef.isSome = true → (credits.filter (samePayment c)).length ≤ 1
  /-- each that was asked for -/
  asked : ∀ c ∈ asked, c.paymentRef.isSome = true → ∃ c' ∈ credits, samePayment c c' = true

variable {credits asked : List Credit}

theorem Payments.once (h : Payments credits asked) {c : Credit} (hc : c ∈ asked) (href : c.paymentRef.isSome = true) :
    (credits.filter (samePayment c)).length = 1 := by
  obtain ⟨c', hmem, hsame⟩ := h.asked c hc href
  have hpos := List.length_pos_of_mem (List.mem_filter.mpr ⟨hmem, hsame⟩)
  have hle := h.unique c href
  omega

theorem credited_iff {c : Credit} (href : c.paymentRef.isSome = true) :
    credited credits c.tenant c.paymentRef = true ↔ ∃ c' ∈ credits, samePayment c c' = true := by
  unfold credited samePayment
  rw [href, Bool.true_and, List.any_eq_true]

/-- One credit more is for a payment that was not credited yet. -/
theorem Payments.add (h : Payments db.credits asked) (c : Credit) :
    Payments (addTenantCredit db c).credits (asked ++ [c]) := by
  unfold addTenantCredit
  split
  next hdone =>
    refine ⟨h.unique, fun c' hc' href => ?_⟩
    rcases List.mem_append.mp hc' with hold | hone
    · exact h.asked c' hold href
    · obtain rfl := List.mem_singleton.mp hone
      exact (credited_iff href).mp hdone
  next hnew =>
    refine ⟨fun c' href => ?_, fun c' hc' href => ?_⟩
    · dsimp only
      rw [List.filter_append, List.length_append]
      by_cases hsame : samePayment c' c = true
      · -- the new one is the first for its payment
        have hnone : db.credits.filter (samePayment c') = [] := by
          refine List.filter_eq_nil_iff.mpr fun c'' hc'' hsame' => hnew ?_
          unfold samePayment at hsame hsame'
          rw [Bool.and_eq_true, beq_iff_eq, beq_iff_eq] at hsame hsame'
          rw [hsame.1, hsame.2]
          exact (credited_iff href).mpr ⟨c'', hc'', by unfold samePayment; simp [hsame']⟩
        rw [hnone]
        have hlen := List.length_filter_le (samePayment c') [c]
        simpa using hlen
      · rw [List.filter_cons_of_neg hsame, List.filter_nil, List.length_nil]
        exact h.unique c' href
    · rcases List.mem_append.mp hc' with hold | hone
      · obtain ⟨c'', hmem, hsame⟩ := h.asked c' hold href
        exact ⟨c'', List.mem_append_left _ hmem, hsame⟩
      · obtain rfl := List.mem_singleton.mp hone
        exact ⟨c', List.mem_append_right _ (List.mem_singleton_self _), by unfold samePayment; simp⟩

theorem Payments.fewer {asked' : List Credit} (h : Payments credits asked) (hsub : ∀ c ∈ asked', c ∈ asked) :
    Payments credits asked' :=
  ⟨h.unique, fun c hc => h.asked c (hsub c hc)⟩

theorem credits_advance {task : Task} {task' : Option Task} (h : s.advance task = some (s', task')) :
    s'.db.credits = s.db.credits ∧ s'.asked = s.asked := by
  cases task with
  | postGet tenant flag origin =>
    dsimp only [Sync.advance] at h
    split at h
    next => cases h
    next =>
      split at h
      next =>
        obtain ⟨rfl, rfl⟩ := Prod.mk.inj (Option.some.inj h)
        exact ⟨rfl, rfl⟩
      next =>
        split at h
        next => cases h
        next =>
          obtain ⟨rfl, rfl⟩ := Prod.mk.inj (Option.some.inj h)
          exact ⟨rfl, rfl⟩
  | postWrite tenant flag revision origin =>
    dsimp only [Sync.advance] at h
    split at h
    next =>
      obtain ⟨rfl, rfl⟩ := Prod.mk.inj (Option.some.inj h)
      exact ⟨rfl, rfl⟩
    next => cases h
  | recalc c =>
    obtain ⟨rfl, rfl⟩ := Prod.mk.inj (Option.some.inj h)
    exact ⟨rfl, rfl⟩
  | creditGet c flag =>
    dsimp only [Sync.advance] at h
    split at h
    next => cases h
    next =>
      split at h
      next =>
        obtain ⟨rfl, rfl⟩ := Prod.mk.inj (Option.some.inj h)
        exact ⟨rfl, rfl⟩
      next =>
        obtain ⟨rfl, rfl⟩ := Prod.mk.inj (Option.some.inj h)
        exact ⟨rfl, rfl⟩
  | creditWrite c flag =>
    dsimp only [Sync.advance] at h
    split at h
    next =>
      obtain ⟨rfl, rfl⟩ := Prod.mk.inj (Option.some.inj h)
      exact ⟨rfl, rfl⟩
    next => cases h

/-- One event credits no payment twice. -/
theorem Payments.next (h : Payments s.db.credits s.asked) {e : Event} (hnext : s.next e = some s') :
    Payments s'.db.credits s'.asked := by
  cases e with
  | op o =>
    cases o with
    | run => cases hnext
    | tick t =>
      obtain rfl := Option.some.inj hnext
      exact h
    | token e =>
      obtain ⟨db, hdb, rfl⟩ := Option.map_eq_some_iff.mp hnext
      unfold Db.next at hdb
      dsimp only at hdb
      split at hdb
      next =>
        obtain rfl := Option.some.inj hdb
        exact h
      next =>
        obtain rfl := Option.some.inj hdb
        exact h
    | credit c =>
      obtain rfl := Option.some.inj hnext
      exact (h.add c).fewer fun c' hc' => List.mem_append_left _ hc'
    | rate r =>
      obtain rfl := Option.some.inj hnext
      exact h
    | tokenRate r =>
      obtain rfl := Option.some.inj hnext
      exact h
  | job =>
    obtain rfl := Option.some.inj hnext
    exact h
  | set tenant flag =>
    obtain rfl := Option.some.inj hnext
    exact h
  | add c =>
    obtain rfl := Option.some.inj hnext
    exact h.add c
  | addFails c =>
    obtain rfl := Option.some.inj hnext
    exact h
  | step i =>
    dsimp only [Sync.next] at hnext
    split at hnext
    next => cases hnext
    next =>
      split at hnext
      next =>
        obtain rfl := Option.some.inj hnext
        exact h
      next s'' task' hadv =>
        obtain rfl := Option.some.inj hnext
        obtain ⟨hcredits, hasked⟩ := credits_advance hadv
        dsimp only
        rw [hcredits, hasked]
        exact h
  | fail i =>
    dsimp only [Sync.next] at hnext
    split at hnext
    next => cases hnext
    next =>
      obtain rfl := Option.some.inj hnext
      exact h
  | deliver =>
    dsimp only [Sync.next] at hnext
    split at hnext
    next => cases hnext
    next =>
      obtain rfl := Option.some.inj hnext
      exact h

/-! ## Runs -/

/-- Nothing is in progress, the flags are in step, and no payment is credited twice. -/
structure Sync.Start (s : Sync) : Prop where
  /-- nothing is in progress -/
  quiet : s.Quiet
  /-- the flags are in step -/
  inStep : s.InStep
  /-- nothing was asked for yet -/
  asked : s.asked = []
  /-- no payment is credited twice -/
  unique : ∀ c : Credit, c.paymentRef.isSome = true → (s.db.credits.filter (samePayment c)).length ≤ 1

/-- **The flag follows the ledger.** When all is done, each tenant object has the flag
of the database and each payment has been credited once: as long as no step of the
database that changes the flag of a tenant overlaps with another writer of that
tenant, no job and no credit request fails after its step of the database, clients
set the flag that the database has, and a tenant that is read has reached the cache. -/
theorem inStep_of_reach (h : Reach Sync.next Sync.Start EventOk s) (hquiet : s.Quiet) :
    s.InStep ∧ s.CreditedOnce := by
  have hinv : Copying s ∧ Payments s.db.credits s.asked := by
    refine h.invariant (I := fun s => Copying s ∧ Payments s.db.credits s.asked) (fun s hs => ⟨⟨?_, ?_⟩, hs.unique, ?_⟩)
      fun _ _ _ hs hok hnext => ⟨hs.1.next hok hnext, hs.2.next hnext⟩
    · rw [hs.quiet.1]
      exact fun task htask => by cases htask
    · exact fun tenant obj hobj hne => absurd (hs.inStep tenant obj hobj) hne
    · rw [hs.asked]
      exact fun c hc => by cases hc
  exact ⟨hinv.1.inStep hquiet, fun c hc href => hinv.2.once hc href⟩

namespace Sample

/-- A tenant that is stopped in both stores. -/
def stopped : Sync where
  db := { quota := fun t => if t = "t" then some { usedCents := 10, balanceCents := -10, quotaExceeded := true } else none }
  tenants t := if t = "t" then some { quotaExceeded := true, revision := 1 } else none
  seen t := if t = "t" then some { quotaExceeded := true, revision := 1 } else none

/-- A payment. -/
def payment : Credit := { tenant := "t", amountCents := 100, paymentRef := some "p" }

/-- The payment is credited, all goes well, and the write reaches the cache. -/
def paid : List Event := [.add payment, .step 0, .step 0, .step 0, .deliver]

/-- The tenant cannot be written, and the client repeats its request. -/
def paidTwice : List Event := [.add payment, .step 0, .step 0, .fail 0, .add payment]

theorem start_stopped : stopped.Start := by
  refine ⟨⟨rfl, rfl⟩, fun tenant obj hobj => ?_, rfl, fun c _ => Nat.zero_le _⟩
  unfold stopped at hobj
  dsimp only at hobj
  split at hobj
  next heq =>
    obtain rfl := Option.some.inj hobj
    subst heq
    decide
  next => cases hobj

/-- A request that is alone in progress may step. -/
theorem stepOk {s : Sync} (task : Task) (htasks : s.tasks = [task])
    (hadv : task.copies = true → (s.advance task).isSome = true) (hpending : ∀ c, task = .recalc c → task.pending = [])
    (hseen : ∀ tenant ∈ task.reads, s.seen tenant = s.tenants tenant) :
    EventOk s (.step 0) := by
  intro task' htask'
  rw [htasks] at htask'
  obtain rfl := Option.some.inj htask'
  refine ⟨hadv, fun c hc tenant _ task'' htask'' p hp => ?_, hseen⟩
  rw [htasks, List.mem_singleton] at htask''
  rw [htask'', hpending c hc] at hp
  cases hp

end Sample

/-- A payment is credited and the tenant is let go on. -/
theorem inStep_after_payment : ∃ s, exec Sync.next (fun _ _ => True) Sample.stopped Sample.paid = some s ∧
    s.Quiet ∧ s.InStep ∧ s.CreditedOnce := by
  have h0 : Reach Sync.next Sync.Start EventOk Sample.stopped := .init Sample.start_stopped
  have h1 : Reach Sync.next Sync.Start EventOk _ := .step (c := .add Sample.payment) h0 trivial rfl
  have h2 : Reach Sync.next Sync.Start EventOk _ := .step (c := .step 0) h1
    (Sample.stepOk (.recalc Sample.payment) rfl (fun h => by cases h) (fun _ _ => rfl)
      fun _ h => by cases h) rfl
  have h3 : Reach Sync.next Sync.Start EventOk _ := .step (c := .step 0) h2
    (Sample.stepOk (.creditGet Sample.payment false) rfl (fun _ => rfl) (fun _ h => by cases h)
      fun _ _ => rfl) rfl
  have h4 : Reach Sync.next Sync.Start EventOk _ := .step (c := .step 0) h3
    (Sample.stepOk (.creditWrite Sample.payment false) rfl (fun _ => rfl) (fun _ h => by cases h)
      fun _ h => by cases h) rfl
  have h5 : Reach Sync.next Sync.Start EventOk _ := .step (c := .deliver) h4 trivial rfl
  exact ⟨_, rfl, ⟨rfl, rfl⟩, inStep_of_reach h5 ⟨rfl, rfl⟩⟩

/-- The tenant cannot be written after its quota is recalculated, and the request is
taken for done when it is repeated: the tenant stays stopped. -/
theorem repeated_payment_not_copied : ¬ ∀ s, Reach Sync.next Sync.Start (fun _ _ => True) s → s.Quiet →
    s.InStep ∧ s.CreditedOnce := by
  intro h
  have hend : ((exec Sync.next (fun _ _ => True) Sample.stopped Sample.paidTwice).map fun s =>
      (s.tasks, s.retries, s.tenants "t", flagOf s.db "t")) =
        some ([], [], some { quotaExceeded := true, revision := 1 }, false) := by
    decide +kernel
  obtain ⟨s, hs, hfields⟩ := Option.map_eq_some_iff.mp hend
  rw [Prod.mk.injEq, Prod.mk.injEq, Prod.mk.injEq] at hfields
  obtain ⟨htasks, hretries, htenant, hflag⟩ := hfields
  have hstep := (h s (Reach.of_exec _ _ (.init Sample.start_stopped) hs) ⟨htasks, hretries⟩).1 "t" _ htenant
  rw [hflag] at hstep
  cases hstep

end Inferx.Billing
