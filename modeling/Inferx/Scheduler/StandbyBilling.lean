import Inferx.Lib.Runs
import Inferx.Scheduler.Booked
import Inferx.Scheduler.Coherence

/-!
# Standby sessions and the order of events

A function with GPUs is billed as long as one of its snapshots is loaded. A
session is opened when a loaded snapshot is reported and its function is known,
and for all functions at once when the initial lists are complete. Nothing
opens a session when the function is the one that comes last, so after the
initial lists the order of the two events matters.

`Billed` runs the scheduler and keeps the functions that came late: those that
found a loaded snapshot of theirs when they were added. The sessions are right
in a state exactly when no function is late there.
-/

namespace Inferx

open Proc SchedulerHandler

/-! ## Who is billed -/

namespace Books

/-- Is a snapshot of the function loaded? -/
def loaded (b : Books) (f : String) : Bool :=
  b.snapshots[f]?.any fun m => m.toList.any fun q => q.2.state == .ready

/-- Is the function known, and does it use GPUs? -/
def billable (b : Books) (f : String) : Bool :=
  (b.funcs f).any fun func => func.resources.gpu.gpuCount != 0

theorem loaded_iff {b : Books} {f : String} :
    b.loaded f = true ↔ ∃ n c, b.snapshots.getInner f n = some c ∧ c.state = .ready := by
  unfold loaded BTreeMap.getInner
  rcases b.snapshots[f]? with _ | m
  · simp
  · simp only [Option.any_some, List.any_eq_true, beq_iff_eq, Option.bind_some]
    constructor
    · rintro ⟨⟨n, c⟩, hmem, hready⟩
      exact ⟨n, c, BTreeMap.mem_toList.mp hmem, hready⟩
    · rintro ⟨n, c, hget, hready⟩
      exact ⟨(n, c), BTreeMap.mem_toList.mpr hget, hready⟩

theorem billable_congr {b b' : Books} {f : String} (h : b'.funcs f = b.funcs f) :
    b'.billable f = b.billable f := by
  unfold billable
  rw [h]

theorem loaded_congr {b b' : Books} (h : b'.snapshots = b.snapshots) (f : String) :
    b'.loaded f = b.loaded f := by
  unfold loaded
  rw [h]

/-- A loaded snapshot is written. -/
theorem loaded_setInner {b b' : Books} {f n : String} {c : ContainerSnapshot} (hc : c.state = .ready)
    (h : b'.snapshots = b.snapshots.setInner f n c) (g : String) :
    b'.loaded g = (b.loaded g || g == f) := by
  rw [Bool.eq_iff_iff, Bool.or_eq_true, beq_iff_eq, loaded_iff, loaded_iff, h]
  constructor
  · rintro ⟨m, c', hget, hready⟩
    rw [BTreeMap.getInner_setInner] at hget
    split at hget
    next heq => exact Or.inr heq.1
    next => exact Or.inl ⟨m, c', hget, hready⟩
  · rintro (⟨m, c', hget, hready⟩ | rfl)
    · by_cases heq : g = f ∧ m = n
      · refine ⟨n, c, ?_, hc⟩
        rw [BTreeMap.getInner_setInner, if_pos ⟨heq.1, rfl⟩]
      · refine ⟨m, c', ?_, hready⟩
        rw [BTreeMap.getInner_setInner, if_neg heq]
        exact hget
    · refine ⟨n, c, ?_, hc⟩
      rw [BTreeMap.getInner_setInner, if_pos ⟨rfl, rfl⟩]

end Books

/-- **The promise about a state.** The functions with a standby session are those
that are known, use GPUs and have a loaded snapshot. -/
def StandbyExact (s : SchedulerHandler) : Prop :=
  ∀ f, s.standbyBillingSessions.contains f = (s.books.billable f && s.books.loaded f)

/-- A session can be opened for the function: its key has the parts of one, and
the number of its GPUs is not lost in a narrower integer. -/
def Chargeable (f : String) (func : Function) : Prop :=
  isFuncKey f = true ∧ (func.resources.gpu.gpuCount ≠ 0 → asI32 func.resources.gpu.gpuCount ≠ 0)

/-! ## Opening sessions -/

/-- The sessions after some have been opened for functions of `l`. -/
structure OpensFor (l : List String) (s t : SchedulerHandler) : Prop where
  /-- nothing else has changed -/
  books : t.books = { s.books with sessions := t.books.sessions }
  /-- the new sessions -/
  sessions : ∀ g, t.books.sessions.contains g =
    (s.books.sessions.contains g || (decide (g ∈ l) && s.books.billable g))

theorem startStandbyBilling_spec (env : Env) (f : String) (s : SchedulerHandler)
    (hwell : ∀ func, s.books.funcs f = some func → Chargeable f func) :
    (startStandbyBilling env f).wp (fun _ t => OpensFor [f] s t) (fun _ _ => False) (fun _ => True)
      s := by
  have hsame : (s.books.sessions.contains f || !s.books.billable f) = true → OpensFor [f] s s := by
    refine fun h => ⟨rfl, fun g => ?_⟩
    by_cases hg : g = f
    · subst hg
      rcases hs : s.books.sessions.contains g with _ | _
      · rw [hs] at h
        simp only [Bool.false_or, Bool.not_eq_true'] at h
        simp [h]
      · simp
    · simp [hg]
  unfold startStandbyBilling
  rw [wp_bind, wp_get]
  split
  next h => exact hsame (by rw [show s.books.sessions.contains f = true from h, Bool.true_or])
  next hopen =>
    replace hopen : s.books.sessions.contains f = false := Bool.eq_false_iff.mpr hopen
    split
    next hnone =>
      have hb : s.books.billable f = false := by
        simp [Books.billable, books, hnone]
      exact hsame (by rw [hb, Bool.not_false, Bool.or_true])
    next fs hfs =>
      have hfunc : s.books.funcs f = some fs.func := congrArg (Option.map FuncStatus.func) hfs
      obtain ⟨hkey, hgpu⟩ := hwell fs.func hfunc
      have hb : s.books.billable f = (fs.func.resources.gpu.gpuCount != 0) := by
        simp [Books.billable, hfunc]
      dsimp only
      split
      next hzero =>
        have hcount : fs.func.resources.gpu.gpuCount = 0 := by
          by_contra hne
          exact hgpu hne hzero
        exact hsame (by rw [hb, hcount]; simp)
      next hne =>
        have hcount : fs.func.resources.gpu.gpuCount ≠ 0 := fun h => hne (by rw [h]; rfl)
        split
        next => trivial
        next =>
          refine ⟨?_, fun g => ?_⟩
          · simp [books, Effect.removes, Effect.creates]
          · show (s.standbyBillingSessions.insert f _).contains g = _
            rw [Std.ExtTreeMap.contains_insert]
            by_cases hg : g = f
            · subst hg
              simp [hb, hcount]
            · have hcmp : (compare f g == Ordering.eq) = false := by
                rw [beq_eq_false_iff_ne]
                exact fun h => hg (Std.LawfulEqOrd.eq_of_compare h).symm
              rw [hcmp]
              simp [hg, books]

theorem OpensFor.trans {l₁ l₂ : List String} {s t u : SchedulerHandler} (h₁ : OpensFor l₁ s t)
    (h₂ : OpensFor l₂ t u) : OpensFor (l₁ ++ l₂) s u := by
  refine ⟨?_, fun g => ?_⟩
  · rw [h₂.books, h₁.books]
  · have hb : t.books.billable g = s.books.billable g := Books.billable_congr (by rw [h₁.books])
    have hmem : decide (g ∈ l₁ ++ l₂) = (decide (g ∈ l₁) || decide (g ∈ l₂)) := by simp
    rw [h₂.sessions, h₁.sessions, hb, hmem, Bool.or_assoc, Bool.and_or_distrib_right]

theorem startStandbyBilling_each (env : Env) (l : List String) (s : SchedulerHandler)
    (hwell : ∀ f func, s.books.funcs f = some func → Chargeable f func) :
    (each (startStandbyBilling env) l).wp (fun _ t => OpensFor l s t) (fun _ _ => False)
      (fun _ => True) s := by
  induction l generalizing s with
  | nil => exact ⟨rfl, fun g => by simp⟩
  | cons f l ih =>
    unfold Proc.each
    rw [wp_bind]
    refine wp_mono (startStandbyBilling_spec env f s (hwell f)) (fun _ t ht => ?_) (fun _ _ h => h)
      fun _ h => h
    refine wp_mono (ih t fun g func hg => hwell g func ?_) (fun _ u hu => ht.trans hu) (fun _ _ h => h)
      fun _ h => h
    rw [ht.books] at hg
    exact hg

/-- The sessions that are opened when the initial lists are complete. -/
structure Recovers (s t : SchedulerHandler) : Prop where
  /-- nothing else has changed -/
  books : t.books = { s.books with sessions := t.books.sessions }
  /-- the new sessions -/
  sessions : ∀ g, t.books.sessions.contains g =
    (s.books.sessions.contains g || (s.books.billable g && s.books.loaded g))

theorem recoverStandbyBilling_spec (env : Env) (s : SchedulerHandler)
    (hwell : ∀ f func, s.books.funcs f = some func → Chargeable f func) :
    (recoverStandbyBilling env).wp (fun _ t => Recovers s t) (fun _ _ => False) (fun _ => True) s := by
  unfold recoverStandbyBilling
  rw [wp_bind, wp_get]
  refine wp_mono (startStandbyBilling_each env _ s hwell) (fun _ t ht => ⟨ht.books, fun g => ?_⟩)
    (fun _ _ h => h) fun _ h => h
  have hmem : (g ∈ (s.snapshots.toList.filter fun p => p.2.toList.any fun q => q.2.state == .ready).map
      Prod.fst) ↔ s.books.loaded g = true := by
    rw [List.mem_map]
    constructor
    · rintro ⟨⟨f, m⟩, hp, rfl⟩
      obtain ⟨hp, hready⟩ := List.mem_filter.mp hp
      unfold Books.loaded
      rw [show s.books.snapshots[f]? = some m from BTreeMap.mem_toList.mp hp]
      exact hready
    · intro h
      unfold Books.loaded at h
      rcases hm : s.books.snapshots[g]? with _ | m
      · rw [hm] at h
        cases h
      · rw [hm] at h
        exact ⟨(g, m), List.mem_filter.mpr ⟨BTreeMap.mem_toList.mpr hm, h⟩, rfl⟩
  have hdecide : decide (g ∈ (s.snapshots.toList.filter fun p =>
      p.2.toList.any fun q => q.2.state == .ready).map Prod.fst) = s.books.loaded g := by
    rw [Bool.eq_iff_iff, decide_eq_true_iff]
    exact hmem
  rw [ht.sessions, hdecide, Bool.and_comm]

/-! ## Runs -/

/-- The scheduler, and the functions that found a loaded snapshot of theirs when
they were added. -/
structure Billed where
  /-- the scheduler -/
  sched : SchedulerHandler
  /-- the functions that came late -/
  late : Finset String := ∅

/-- Are the initial lists complete with this one? -/
def SchedulerHandler.completes (s : SchedulerHandler) (l : ListType) : Bool :=
  (s.nodeListDone || decide (l = .node)) && (s.funcListDone || decide (l = .func))
    && (s.funcstatusListDone || decide (l = .funcStatus)) && (s.funcPodListDone || decide (l = .funcPod))
    && (s.snapshotListDone || decide (l = .snapshot)) && (s.funcpolicyDone || decide (l = .funcpolicy))

namespace Billed

/-- The late functions after an event. A session is opened for a late function
by the next report of a loaded snapshot, and for all when the lists are
complete. -/
def lateAfter (x : Billed) : Handler → Finset String
  | .event (.funcAdded func) =>
    if (x.sched.books.funcs func.id).isNone && func.resources.gpu.gpuCount != 0
        && x.sched.books.loaded func.id then insert func.id x.late
    else x.late
  | .event (.snapshotAdded snapshot) => x.late.erase snapshot.object.funckey
  | .event (.snapshotModified snapshot) => x.late.erase snapshot.object.funckey
  | .event (.initDone l) => if x.sched.completes l then ∅ else x.late
  | _ => x.late

/-- A call of a handler. -/
def next (x : Billed) (c : Call) : Option Billed :=
  (x.sched.next c).map fun t => ⟨t, x.lateAfter c.2⟩

/-- A scheduler that has just started. -/
structure Start (x : Billed) : Prop where
  /-- no functions -/
  funcs : x.sched.funcs = ∅
  /-- no snapshots -/
  snapshots : x.sched.snapshots = ∅
  /-- no sessions -/
  sessions : x.sched.standbyBillingSessions = ∅
  /-- nobody is late -/
  late : x.late = ∅

/-- The events the runs are made of: functions that can be charged are added,
loaded snapshots are reported, and lists are completed. A snapshot may bring a
new epoch of its node as long as no other function loses its last loaded
snapshot by it. -/
def Ok (x : Billed) (c : Call) : Prop :=
  match c.2 with
  | .event (.funcAdded func) => Chargeable func.id func
  | .event (.snapshotAdded snapshot) => snapshot.object.state = .ready ∧
    (NewEpoch x.sched snapshot.object.nodename snapshot.srcEpoch →
      ∀ f, f ≠ snapshot.object.funckey → x.sched.books.loaded f = true →
        ∃ n c, n ≠ snapshot.object.nodename ∧ x.sched.books.snapshots.getInner f n = some c ∧
          c.state = .ready)
  | .event (.snapshotModified snapshot) => snapshot.object.state = .ready
  | .event (.initDone _) => True
  | _ => False

/-- What holds of the books in every state. -/
structure Inv (b : Books) (late : Finset String) : Prop where
  /-- the functions can be charged -/
  chargeable : ∀ f func, b.funcs f = some func → Chargeable f func
  /-- everyone is billed who is not late -/
  sessions : ∀ f, b.sessions.contains f = true ↔
    b.billable f = true ∧ b.loaded f = true ∧ f ∉ late
  /-- who is late should be billed -/
  late : ∀ f ∈ late, b.billable f = true ∧ b.loaded f = true

theorem Inv.congr {b b' : Books} {late : Finset String} (h : Inv b late) (hfuncs : b'.funcs = b.funcs)
    (hsnapshots : b'.snapshots = b.snapshots) (hsessions : b'.sessions = b.sessions) : Inv b' late := by
  have hb : ∀ f, b'.billable f = b.billable f := fun f => Books.billable_congr (by rw [hfuncs])
  have hl := Books.loaded_congr hsnapshots
  refine ⟨fun f func hf => h.chargeable f func (hfuncs ▸ hf), fun f => ?_, fun f hf => ?_⟩
  · rw [hsessions, hb, hl]
    exact h.sessions f
  · rw [hb, hl]
    exact h.late f hf

variable {x y : Billed} {c : Call}

theorem inv_funcAdded (env : Env) {func : Function} {s : SchedulerHandler} {late : Finset String}
    (h : Inv s.books late) (hok : Chargeable func.id func) :
    (processEvent env (.funcAdded func)).wp
      (fun _ t => Inv t.books ((⟨s, late⟩ : Billed).lateAfter (.event (.funcAdded func))))
      (fun _ t => Inv t.books ((⟨s, late⟩ : Billed).lateAfter (.event (.funcAdded func))))
      (fun _ => True) s := by
  show (addFunc func >>= fun _ => _).wp _ _ _ s
  rw [wp_bind]
  refine wp_mono (addFunc_books func s) (fun _ t ht => ?_) (fun _ t ht => ?_) fun _ _ => trivial
  · obtain ⟨hnew, hbooks⟩ := ht
    have hnone : s.books.funcs func.id = none := by
      rwa [Knows, Option.isSome_iff_ne_none, not_not] at hnew
    have hunbilled : s.books.billable func.id = false := by
      unfold Books.billable
      rw [hnone]
      rfl
    have hself : t.books.billable func.id = (func.resources.gpu.gpuCount != 0) := by
      unfold Books.billable
      rw [hbooks]
      simp
    have hother : ∀ f, f ≠ func.id → t.books.billable f = s.books.billable f := fun f hf =>
      Books.billable_congr (by rw [hbooks]; exact Function.update_of_ne hf ..)
    have hloaded : ∀ f, t.books.loaded f = s.books.loaded f := Books.loaded_congr (by rw [hbooks])
    have hsessions : t.books.sessions = s.books.sessions := by rw [hbooks]
    have hlate : func.id ∉ late := fun hf => by
      have hbill := (h.late _ hf).1
      rw [hunbilled] at hbill
      cases hbill
    have hmem : ∀ f, f ∈ (⟨s, late⟩ : Billed).lateAfter (.event (.funcAdded func)) ↔
        f ∈ late ∨ f = func.id ∧ t.books.billable f = true ∧ t.books.loaded f = true := by
      intro f
      dsimp only [lateAfter]
      rw [hnone, Option.isNone_none, Bool.true_and]
      split
      next hcond =>
        rw [Bool.and_eq_true] at hcond
        rw [Finset.mem_insert, or_comm]
        refine or_congr_right ⟨fun hf => ⟨hf, ?_, ?_⟩, fun hf => hf.1⟩
        · rw [hf, hself]
          exact hcond.1
        · rw [hf, hloaded]
          exact hcond.2
      next hcond =>
        refine ⟨Or.inl, fun hf => hf.elim id ?_⟩
        rintro ⟨rfl, hbill, hload⟩
        rw [hself] at hbill
        rw [hloaded] at hload
        rw [hbill, hload] at hcond
        exact absurd rfl hcond
    have hinv : Inv t.books ((⟨s, late⟩ : Billed).lateAfter (.event (.funcAdded func))) := by
      refine ⟨fun f g hf => ?_, fun f => ?_, fun f hf => ?_⟩
      · rw [hbooks] at hf
        dsimp only at hf
        rw [Function.update_apply] at hf
        split at hf
        next hfid =>
          obtain rfl := Option.some.inj hf
          rw [hfid]
          exact hok
        next => exact h.chargeable f g hf
      · rw [hsessions, hmem, h.sessions]
        by_cases hf : f = func.id
        · subst hf
          rw [hunbilled]
          constructor
          · rintro ⟨hb, -⟩
            cases hb
          · rintro ⟨hb, hl, hlate'⟩
            exact absurd (Or.inr ⟨rfl, hb, hl⟩) hlate'
        · rw [hother f hf, hloaded]
          simp [hf]
      · rcases (hmem f).mp hf with hf | hf
        · have hne : f ≠ func.id := fun heq => hlate (heq ▸ hf)
          rw [hother f hne, hloaded]
          exact h.late f hf
        · exact hf.2
    rw [wp_bind, wp_get]
    split
    next =>
      have hkeep : ∀ u, Queues (· = func.id) t u →
          Inv u.books ((⟨s, late⟩ : Billed).lateAfter (.event (.funcAdded func))) := by
        intro u hu
        refine hinv.congr ?_ ?_ ?_
        · rw [hu.books]
        · rw [hu.books]
        · rw [hu.books]
      exact wp_mono (startFunc_queues env func.id t) (fun _ => hkeep) (fun _ => hkeep) fun _ _ => trivial
    next => exact hinv
  · obtain ⟨hknown, rfl⟩ := ht
    have hsome : (t.books.funcs func.id).isNone = false := by
      unfold Knows at hknown
      rw [Option.isNone_eq_false_iff]
      exact hknown
    dsimp only [lateAfter]
    rw [hsome]
    exact h

/-- A loaded snapshot is written and its session opened. -/
theorem inv_report (env : Env) {object : ContainerSnapshot} {s t : SchedulerHandler}
    {late : Finset String} (h : Inv s.books late)
    (hfuncs : t.books.funcs = s.books.funcs) (hsessions : t.books.sessions = s.books.sessions)
    (hloaded : ∀ f, t.books.loaded f = (s.books.loaded f || f == object.funckey)) :
    (startStandbyBilling env object.funckey).wp
      (fun _ u => Inv u.books (late.erase object.funckey)) (fun _ _ => False) (fun _ => True) t := by
  have hbill : ∀ f, t.books.billable f = s.books.billable f := fun f =>
    Books.billable_congr (by rw [hfuncs])
  refine wp_mono (startStandbyBilling_spec env object.funckey t fun func hf =>
    h.chargeable _ func (hfuncs ▸ hf)) (fun _ u hu => ?_) (fun _ _ h => h) fun _ h => h
  have hbillu : ∀ f, u.books.billable f = s.books.billable f := fun f =>
    (Books.billable_congr (by rw [hu.books])).trans (hbill f)
  have hloadu : ∀ f, u.books.loaded f = (s.books.loaded f || f == object.funckey) := fun f =>
    (Books.loaded_congr (by rw [hu.books]) f).trans (hloaded f)
  refine ⟨fun f func hf => h.chargeable f func ?_, fun f => ?_, fun f hf => ?_⟩
  · rw [hu.books] at hf
    exact hfuncs ▸ hf
  · rw [hu.sessions, hsessions, hbill, hbillu, hloadu, Bool.or_eq_true, h.sessions]
    by_cases hf : f = object.funckey
    · subst hf
      rcases hb : s.books.billable object.funckey with _ | _
      · simp
      · simp
    · simp [hf]
  · obtain ⟨hne, hf⟩ := Finset.mem_erase.mp hf
    obtain ⟨hb, hl⟩ := h.late f hf
    rw [hbillu, hloadu, hb, hl]
    exact ⟨rfl, rfl⟩

theorem inv_addSnapshot (env : Env) {snapshot : FuncSnapshot} {s t : SchedulerHandler}
    {late : Finset String} (h : Inv s.books late) (hready : snapshot.object.state = .ready)
    (hfuncs : t.books.funcs = s.books.funcs) (hsessions : t.books.sessions = s.books.sessions)
    (hloaded : ∀ f, f ≠ snapshot.object.funckey → t.books.loaded f = s.books.loaded f) :
    (addSnapshot env snapshot).wp
      (fun _ u => Inv u.books (late.erase snapshot.object.funckey)) (fun _ _ => False)
      (fun _ => True) t := by
  let t₁ := t.removePendingSnapshot snapshot.object.funckey snapshot.object.nodename
  have h₁ : t₁.books = t.books := books_of_catalog (catalog_removePendingSnapshot _ _)
  let t₂ : SchedulerHandler :=
    { t₁ with
      snapshots := t₁.snapshots.setInner snapshot.object.funckey snapshot.object.nodename
        snapshot.object }
  have hset : t₂.books.snapshots = t.books.snapshots.setInner snapshot.object.funckey
      snapshot.object.nodename snapshot.object := by
    rw [← h₁]
    rfl
  have hfuncs₂ : t₂.books.funcs = s.books.funcs :=
    (congrArg Books.funcs h₁).trans hfuncs
  have hsessions₂ : t₂.books.sessions = s.books.sessions :=
    (congrArg Books.sessions h₁).trans hsessions
  unfold addSnapshot
  dsimp only
  rw [wp_bind, wp_modify, wp_bind, wp_modify, if_pos hready]
  refine inv_report (t := t₂) env h hfuncs₂ hsessions₂ fun f => ?_
  rw [Books.loaded_setInner hready hset]
  by_cases hf : f = snapshot.object.funckey
  · simp [hf]
  · rw [hloaded f hf]

theorem inv_snapshotAdded (env : Env) {snapshot : FuncSnapshot} {s : SchedulerHandler}
    {late : Finset String} (h : Inv s.books late)
    (hok : (⟨s, late⟩ : Billed).Ok (env, .event (.snapshotAdded snapshot))) :
    (processEvent env (.snapshotAdded snapshot)).wp
      (fun _ u => Inv u.books (late.erase snapshot.object.funckey)) (fun _ _ => False)
      (fun _ => True) s := by
  obtain ⟨hready, hepoch⟩ := hok
  show (checkNodeEpoch env _ _ >>= fun _ => addSnapshot env snapshot).wp _ _ _ s
  rw [wp_bind]
  refine wp_mono (checkNodeEpoch_books env snapshot.object.nodename snapshot.srcEpoch s)
    (fun _ t ht => ?_) (fun _ _ h => h) fun _ _ => trivial
  rcases ht with ⟨-, ht⟩ | ⟨hnew, ht⟩
  · exact inv_addSnapshot env h hready (by rw [ht]) (by rw [ht]) fun f _ =>
      Books.loaded_congr (by rw [ht]) f
  · refine inv_addSnapshot env h hready ht.funcs ht.sessions fun f hf => ?_
    rw [Bool.eq_iff_iff, Books.loaded_iff, Books.loaded_iff]
    constructor
    · rintro ⟨n, c, hget, hc⟩
      rw [ht.snapshots] at hget
      split at hget
      next => cases hget
      next => exact ⟨n, c, hget, hc⟩
    · intro hloaded
      obtain ⟨n, c, hn, hget, hc⟩ := hepoch hnew f hf (Books.loaded_iff.mpr hloaded)
      refine ⟨n, c, ?_, hc⟩
      rw [ht.snapshots, if_neg hn]
      exact hget

theorem inv_snapshotModified (env : Env) {snapshot : FuncSnapshot} {s : SchedulerHandler}
    {late : Finset String} (h : Inv s.books late) (hready : snapshot.object.state = .ready) :
    (processEvent env (.snapshotModified snapshot)).wp
      (fun _ u => Inv u.books (late.erase snapshot.object.funckey)) (fun _ _ => False)
      (fun _ => True) s := by
  show (updateSnapshot env snapshot).wp _ _ _ s
  unfold updateSnapshot
  rw [wp_bind, wp_get]
  dsimp only
  split
  next =>
    rw [wp_bind, wp_modify]
    exact inv_report (t := { s with snapshots := _ }) env h rfl rfl
      (Books.loaded_setInner hready rfl)
  next hnone =>
    -- The snapshots of the function are not tracked, so it cannot be late.
    have hnot : snapshot.object.funckey ∉ late := by
      intro hlate
      have hloaded := (h.late _ hlate).2
      unfold Books.loaded at hloaded
      rw [Std.ExtTreeMap.contains_eq_isSome_getElem?, Option.isSome_iff_ne_none, not_not] at hnone
      rw [show s.books.snapshots[snapshot.object.funckey]? = none from hnone] at hloaded
      cases hloaded
    show Inv s.books (late.erase snapshot.object.funckey)
    rw [Finset.erase_eq_of_notMem hnot]
    exact h

theorem Recovers.inv {s t : SchedulerHandler} {late : Finset String} (ht : Recovers s t)
    (h : Inv s.books late) : Inv t.books ∅ := by
  have hbill : ∀ f, t.books.billable f = s.books.billable f := fun f =>
    Books.billable_congr (by rw [ht.books])
  have hloaded : ∀ f, t.books.loaded f = s.books.loaded f := Books.loaded_congr (by rw [ht.books])
  refine ⟨fun f func hf => h.chargeable f func ?_, fun f => ?_, fun f hf => (nomatch hf)⟩
  · rw [ht.books] at hf
    exact hf
  · rw [ht.sessions, hbill, hloaded, Bool.or_eq_true, Bool.and_eq_true, h.sessions]
    simp only [Finset.notMem_empty, not_false_eq_true, and_true]
    exact ⟨fun hf => hf.elim (fun hf => ⟨hf.1, hf.2.1⟩) id, Or.inr⟩

theorem inv_initDone (env : Env) (l : ListType) {s : SchedulerHandler} {late : Finset String}
    (h : Inv s.books late) :
    (processEvent env (.initDone l)).wp
      (fun _ u => Inv u.books ((⟨s, late⟩ : Billed).lateAfter (.event (.initDone l))))
      (fun _ _ => False) (fun _ => True) s := by
  -- What happens once the flag is set, in a state where it makes the lists complete or not.
  have htail : ∀ s₁ : SchedulerHandler, s₁.books = s.books →
      (s₁.nodeListDone && s₁.funcListDone && s₁.funcstatusListDone && s₁.funcPodListDone
        && s₁.snapshotListDone && s₁.funcpolicyDone) = s.completes l →
      (if s₁.nodeListDone && s₁.funcListDone && s₁.funcstatusListDone && s₁.funcPodListDone
          && s₁.snapshotListDone && s₁.funcpolicyDone then do
        Proc.modify fun s => { s with listDone := true }
        recoverStandbyBilling env
        Proc.modify fun s => { s with warmupStartTime := some env.now, warmupComplete := false }
      else return () : SchedM Unit).wp
        (fun _ u => Inv u.books ((⟨s, late⟩ : Billed).lateAfter (.event (.initDone l))))
        (fun _ _ => False) (fun _ => True) s₁ := by
    intro s₁ hbooks hcomplete
    have hinv : Inv s₁.books late := hbooks.symm ▸ h
    rw [hcomplete]
    dsimp only [lateAfter]
    split
    next =>
      rw [wp_bind, wp_modify, wp_bind]
      refine wp_mono (recoverStandbyBilling_spec env { s₁ with listDone := true } hinv.chargeable)
        (fun _ t ht => ?_) (fun _ _ h => h) fun _ h => h
      have hopened : Inv t.books ∅ := Recovers.inv (s := { s₁ with listDone := true }) ht hinv
      exact hopened
    next => exact hinv
  show (listDone env l).wp _ _ _ s
  unfold listDone
  rw [wp_bind, wp_modify, wp_bind, wp_get]
  cases l with
  | func => exact htail _ rfl (by simp [completes])
  | funcStatus => exact htail _ rfl (by simp [completes])
  | funcPod => exact htail _ rfl (by simp [completes])
  | node => exact htail _ rfl (by simp [completes])
  | snapshot => exact htail _ rfl (by simp [completes])
  | funcpolicy => exact htail _ rfl (by simp [completes])

/-- **The step.** -/
theorem inv_run (env : Env) (handler : Handler) {s : SchedulerHandler} {late : Finset String}
    (h : Inv s.books late) (hok : (⟨s, late⟩ : Billed).Ok (env, handler)) :
    (handler.run env).wp (fun _ u => Inv u.books ((⟨s, late⟩ : Billed).lateAfter handler))
      (fun _ u => Inv u.books ((⟨s, late⟩ : Billed).lateAfter handler)) (fun _ => True) s := by
  cases handler with
  | event e =>
    cases e with
    | funcAdded func => exact inv_funcAdded env h hok
    | snapshotAdded snapshot =>
      exact wp_mono (inv_snapshotAdded env h hok) (fun _ _ h => h) (fun _ _ h => h.elim) fun _ h => h
    | snapshotModified snapshot =>
      exact wp_mono (inv_snapshotModified env h hok) (fun _ _ h => h) (fun _ _ h => h.elim) fun _ h => h
    | initDone l =>
      exact wp_mono (inv_initDone env l h) (fun _ _ h => h) (fun _ _ h => h.elim) fun _ h => h
    | _ => exact hok.elim
  | _ => exact hok.elim

theorem inv_next (hx : Inv x.sched.books x.late) (hok : x.Ok c) (h : x.next c = some y) :
    Inv y.sched.books y.late := by
  obtain ⟨t, ht, rfl⟩ := Option.map_eq_some_iff.mp h
  obtain ⟨s, late⟩ := x
  have hstart : Inv ({ s with out := [] } : SchedulerHandler).books late := hx.congr rfl rfl rfl
  exact wp_state (I := fun u => Inv u.books ((⟨s, late⟩ : Billed).lateAfter c.2))
    (inv_run c.1 c.2 (s := { s with out := [] }) hstart hok) ht

/-- **Standby sessions.** In every run of functions, loaded snapshots and lists
that keeps to `Ok`, the sessions are those of the functions that should be
billed exactly when no function is late. -/
theorem standbyExact_iff_of_reach (h : Reach next Start Ok x) :
    StandbyExact x.sched ↔ x.late = ∅ := by
  have hinv : Inv x.sched.books x.late := by
    refine h.invariant (I := fun x => Inv x.sched.books x.late) (fun x hx => ?_)
      fun x c y hx hok hnext => inv_next hx hok hnext
    have hfuncs : ∀ f, x.sched.books.funcs f = none := by
      intro f
      show x.sched.funcs[f]?.map FuncStatus.func = none
      rw [hx.funcs]
      simp
    have hsessions : ∀ f, x.sched.books.sessions.contains f = false := by
      intro f
      show x.sched.standbyBillingSessions.contains f = false
      rw [hx.sessions]
      simp
    refine ⟨fun f func hf => ?_, fun f => ?_, fun f hf => ?_⟩
    · rw [hfuncs] at hf
      cases hf
    · rw [hsessions]
      simp [Books.billable, hfuncs]
    · rw [hx.late] at hf
      cases hf
  constructor
  · intro hexact
    refine Finset.eq_empty_of_forall_notMem fun f hf => ?_
    obtain ⟨hb, hl⟩ := hinv.late f hf
    have hsession : x.sched.books.sessions.contains f = true := by
      rw [show x.sched.books.sessions.contains f = _ from hexact f, hb, hl]
      rfl
    exact ((hinv.sessions f).mp hsession).2.2 hf
  · intro hlate f
    rw [Bool.eq_iff_iff, Bool.and_eq_true]
    refine (hinv.sessions f).trans ?_
    rw [hlate]
    simp

theorem next_after {l : List Call} {late : Finset String} (h : (calls {} (l ++ [c])).isSome) :
    (⟨after l, late⟩ : Billed).next c =
      some ⟨after (l ++ [c]), (⟨after l, late⟩ : Billed).lateAfter c.2⟩ := by
  unfold next
  rw [Inferx.next_after h]
  rfl

theorem start_new : Start { sched := {} } := ⟨rfl, rfl, rfl, rfl⟩

end Billed

/-- A function that is there before its snapshot is billed. -/
theorem standbyExact_function_first :
    (calls {} [Sample.event (.funcAdded Sample.func),
      Sample.event (.snapshotAdded Sample.readySnapshot)]).isSome ∧
    StandbyExact (after [Sample.event (.funcAdded Sample.func),
      Sample.event (.snapshotAdded Sample.readySnapshot)]) := by
  refine ⟨by decide +kernel, ?_⟩
  have hreach : Reach Billed.next Billed.Start Billed.Ok
      ⟨after [Sample.event (.funcAdded Sample.func),
        Sample.event (.snapshotAdded Sample.readySnapshot)], _⟩ :=
    .step (c := Sample.event (.snapshotAdded Sample.readySnapshot))
      (.step (c := Sample.event (.funcAdded Sample.func)) (.init Billed.start_new)
        ⟨by decide +kernel, fun _ => by decide +kernel⟩
        (Billed.next_after (l := []) (by decide +kernel)))
      ⟨rfl, fun hnew => absurd hnew (by decide +kernel)⟩
      (Billed.next_after (l := [_]) (by decide +kernel))
  refine (Billed.standbyExact_iff_of_reach hreach).mpr ?_
  decide +kernel

/-- A function that comes after its snapshot is not billed, although the lists
have been complete before. -/
theorem standby_snapshot_first : ¬ ∀ (l : List DeltaEvent) (s : SchedulerHandler),
    (∀ e ∈ l, (∃ func, e = .funcAdded func) ∨
      (∃ x : FuncSnapshot, x.object.state = .ready ∧ (e = .snapshotAdded x ∨ e = .snapshotModified x)) ∨
      ∃ t, e = .initDone t) →
    calls {} (l.map Sample.event) = some s → StandbyExact s := by
  intro h
  have hexact := h [.initDone .func, .initDone .funcStatus, .initDone .funcPod, .initDone .node,
    .initDone .snapshot, .initDone .funcpolicy, .snapshotAdded Sample.readySnapshot,
    .funcAdded Sample.func] _ (fun e he => ?_) (calls_eq_after (by decide +kernel))
  · generalize ht : after _ = t at hexact
    have hnone : t.standbyBillingSessions.contains Sample.func.id = false := by
      rw [← ht]
      decide +kernel
    have hsome : (t.books.billable Sample.func.id && t.books.loaded Sample.func.id) = true := by
      rw [← ht]
      decide +kernel
    have hboth := hexact Sample.func.id
    rw [hnone, hsome] at hboth
    cases hboth
  · simp only [List.mem_cons, List.not_mem_nil, or_false] at he
    rcases he with rfl | rfl | rfl | rfl | rfl | rfl | rfl | rfl
    · exact Or.inr (Or.inr ⟨_, rfl⟩)
    · exact Or.inr (Or.inr ⟨_, rfl⟩)
    · exact Or.inr (Or.inr ⟨_, rfl⟩)
    · exact Or.inr (Or.inr ⟨_, rfl⟩)
    · exact Or.inr (Or.inr ⟨_, rfl⟩)
    · exact Or.inr (Or.inr ⟨_, rfl⟩)
    · exact Or.inr (Or.inl ⟨Sample.readySnapshot, rfl, Or.inl rfl⟩)
    · exact Or.inl ⟨_, rfl⟩

end Inferx
