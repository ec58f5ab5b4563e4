import Mathlib.Data.List.Basic
import Mathlib.Data.List.Induction
import Mathlib.Order.Basic
import Inferx.Metastore.CacheStore

/-!
# Late watchers

A watch from a channel revision on is sent the events the ring still holds, and
then, as they come, those that follow. It should not matter when a watch is
opened: a late watcher should be sent what one that was there all along was
sent (`early`), and a list followed by a watch should miss nothing.

Both are read off one fact about a history of `ProcessEvent` calls: the ring is
the end of the list of all accepted events (`ring_processAll`), whose revisions
rise. The replay then differs from the live stream in two ways only. It keeps an
event if the *new* object passes the predicate, so an object that leaves the
selection leaves it silently; and it compares the revision with the oldest event
in the ring, whatever has been overwritten.
-/

/-- Filtering first makes no difference exactly if `f` makes nothing of what is
filtered out. -/
theorem List.filterMap_filter_eq_iff {α β : Type} (p : α → Bool) (f : α → Option β) (l : List α) :
    (l.filter p).filterMap f = l.filterMap f ↔ ∀ a ∈ l, p a = false → f a = none := by
  induction l with
  | nil => simp
  | cons a l ih =>
    rw [List.forall_mem_cons, ← ih]
    by_cases hp : p a = true
    · rcases hf : f a with _ | b
      · simp [hp, hf]
      · simp [hp, hf]
    · rw [Bool.not_eq_true] at hp
      rcases hf : f a with _ | b
      · simp [hp, hf]
      · simp only [List.filter_cons, hp, Bool.false_eq_true, ↓reduceIte, List.filterMap_cons, hf,
          reduceCtorEq, imp_false, not_true_eq_false, false_and, iff_false]
        -- the right side has one event more
        intro heq
        have hlen := (List.Sublist.filterMap f (List.filter_sublist (p := p) (l := l))).length_le
        rw [heq, List.length_cons] at hlen
        omega

namespace Inferx.Metastore

variable {V : Type}

namespace CacheStore

/-! ## Histories -/

/-- A call of `ProcessEvent` with the channel revision it draws. -/
abbrev Drawn (V : Type) : Type := ℤ × WatchEvent V

/-- No channel is full. -/
def noneFull : ℕ → Bool := fun _ => false

/-- The store after some calls, while every watcher takes what it is sent. -/
def processAll (cs : CacheStore V) (l : List (Drawn V)) : CacheStore V :=
  l.foldl (fun cs d => cs.processEvent noneFull d.1 d.2) cs

/-- The events of some calls that are accepted, as the ring is given them. -/
def accepted (cs : CacheStore V) : List (Drawn V) → List (WatchCacheEvent V)
  | [] => []
  | d :: l =>
    (if cs.stale d.2 then [] else [cs.cacheEvent d.1 d.2]) ++
      (cs.processEvent noneFull d.1 d.2).accepted l

/-- The revisions are greater than `c` and rise. -/
def Rising (c : ℤ) (l : List (Drawn V)) : Prop :=
  (l.map Prod.fst).Pairwise (· < ·) ∧ ∀ d ∈ l, c < d.1

/-- The stream of a watch: what it has been sent, if it could be opened. -/
def stream (p : CacheStore V × Option ℕ) : Option (List (WatchEvent V)) :=
  p.2.bind fun wid => p.1.watchers[wid]?.map CacheWatcher.sent

/-- The accepted events that the ring has lost. -/
def overwritten (cs : CacheStore V) (l : List (Drawn V)) : List (WatchCacheEvent V) :=
  (cs.accepted l).take (cs.processAll l).cache.head

variable {cs cs' : CacheStore V} {l l' : List (Drawn V)} {c r : ℤ} {full : ℕ → Bool}
    {e : WatchEvent V}

theorem processAll_append (cs : CacheStore V) (l l' : List (Drawn V)) :
    cs.processAll (l ++ l') = (cs.processAll l).processAll l' := List.foldl_append ..

theorem accepted_append (cs : CacheStore V) (l l' : List (Drawn V)) :
    cs.accepted (l ++ l') = cs.accepted l ++ (cs.processAll l).accepted l' := by
  induction l generalizing cs with
  | nil => rfl
  | cons d l ih =>
    rw [List.cons_append, accepted, accepted, ih, List.append_assoc]
    rfl

/-- What is accepted depends on the objects only. -/
theorem cacheStore_processEvent_congr (h : cs.cacheStore = cs'.cacheStore) :
    (cs.processEvent full c e).cacheStore = (cs'.processEvent full c e).cacheStore := by
  have hstale : cs.stale e = cs'.stale e := by simp only [stale, h]
  unfold processEvent
  rw [hstale]
  split
  next => exact h
  next => simp only [h]

theorem accepted_congr (h : cs.cacheStore = cs'.cacheStore) : cs.accepted l = cs'.accepted l := by
  induction l generalizing cs cs' with
  | nil => rfl
  | cons d l ih =>
    have hstale : cs.stale d.2 = cs'.stale d.2 := by simp only [stale, h]
    have hevent : cs.cacheEvent d.1 d.2 = cs'.cacheEvent d.1 d.2 := by simp only [cacheEvent, h]
    rw [accepted, accepted, hstale, hevent, ih (cacheStore_processEvent_congr h)]

/-- An accepted event has the revision its call drew. -/
theorem mem_accepted {a : WatchCacheEvent V} (h : a ∈ cs.accepted l) :
    ∃ d ∈ l, a.channelRev = d.1 := by
  induction l generalizing cs with
  | nil => cases h
  | cons d l ih =>
    rw [accepted, List.mem_append] at h
    rcases h with h | h
    · split at h
      next => cases h
      next =>
        rw [List.mem_singleton] at h
        exact ⟨d, List.mem_cons_self, by rw [h]; rfl⟩
    · obtain ⟨d', hd', heq⟩ := ih h
      exact ⟨d', List.mem_cons_of_mem d hd', heq⟩

theorem pairwise_accepted (h : (l.map Prod.fst).Pairwise (· < ·)) :
    (cs.accepted l).Pairwise fun a b => a.channelRev < b.channelRev := by
  induction l generalizing cs with
  | nil => exact List.Pairwise.nil
  | cons d l ih =>
    rw [List.map_cons, List.pairwise_cons] at h
    rw [accepted]
    split
    next => exact ih h.2
    next =>
      refine List.pairwise_cons.mpr ⟨fun b hb => ?_, ih h.2⟩
      obtain ⟨d', hd', heq⟩ := mem_accepted hb
      rw [heq]
      exact h.1 d'.1 (List.mem_map_of_mem hd')

/-! ## The ring -/

theorem cache_processEvent (cs : CacheStore V) (c : ℤ) (e : WatchEvent V) :
    (cs.processEvent full c e).cache =
      (if cs.stale e then [] else [cs.cacheEvent c e]).foldl RingBuf.push cs.cache := by
  unfold processEvent
  split
  next => rfl
  next => rfl

theorem cache_processAll (cs : CacheStore V) (l : List (Drawn V)) :
    (cs.processAll l).cache = (cs.accepted l).foldl RingBuf.push cs.cache := by
  induction l generalizing cs with
  | nil => rfl
  | cons d l ih =>
    have hone : (cs.processEvent noneFull d.1 d.2).cache = _ := cache_processEvent cs d.1 d.2
    rw [accepted, List.foldl_append, ← hone]
    exact ih _

end CacheStore

/-- How many of `n` events have been overwritten. -/
def RingBuf.lost (n : ℕ) : ℕ := n - defaultCacheCount

/-- The ring is the end of what has been pushed. -/
theorem RingBuf.foldl_push (l : List (WatchCacheEvent V)) :
    l.foldl RingBuf.push ({} : RingBuf V) = ⟨l.drop (lost l.length), lost l.length⟩ := by
  induction l using List.reverseRecOn with
  | nil => simp [lost]
  | append_singleton l a ih =>
    rw [List.foldl_append, ih, List.foldl_cons, List.foldl_nil, RingBuf.push, List.length_append,
      List.length_singleton]
    have hcount : 0 < defaultCacheCount := by decide
    dsimp only
    rw [List.length_drop]
    by_cases hfull : defaultCacheCount ≤ l.length
    · have hlost : lost l.length = l.length - defaultCacheCount := rfl
      have hnext : lost (l.length + 1) = lost l.length + 1 := by
        unfold lost
        omega
      rw [if_pos (by omega), hnext, List.drop_append_of_le_length (by omega), List.tail_drop]
    · have hlost : lost l.length = 0 := by
        unfold lost
        omega
      have hnext : lost (l.length + 1) = 0 := by
        unfold lost
        omega
      rw [hlost, hnext, if_neg (by omega), List.drop_zero, List.drop_zero]

namespace CacheStore

variable {cs : CacheStore V} {l : List (Drawn V)} {r : ℤ}

/-- **The ring.** It holds the end of what has been accepted. -/
theorem ring_processAll (hcs : cs.cache = {}) :
    (cs.processAll l).cache.events = (cs.accepted l).drop (cs.processAll l).cache.head ∧
      (cs.processAll l).cache.head = RingBuf.lost (cs.accepted l).length := by
  rw [cache_processAll, hcs, RingBuf.foldl_push]
  simp only [and_self]

/-- Every accepted event is in the ring or has been overwritten. -/
theorem accepted_eq (hcs : cs.cache = {}) :
    cs.accepted l = cs.overwritten l ++ (cs.processAll l).cache.events := by
  rw [(ring_processAll hcs).1, overwritten, List.take_append_drop]

/-! ## Early and late -/

/-- What a watch that is opened after all calls is sent. -/
def late (cs : CacheStore V) (l : List (Drawn V)) (nameSpace : String) (r : ℤ)
    (pred : DataObject V → Bool) : Option (List (WatchEvent V)) :=
  stream ((cs.processAll l).watch nameSpace r pred)

/-- What a watch that is opened just before channel revision `r` is sent until all
calls have been made. -/
def early (cs : CacheStore V) (l : List (Drawn V)) (nameSpace : String) (r : ℤ)
    (pred : DataObject V → Bool) : Option (List (WatchEvent V)) :=
  let p := (cs.processAll (l.filter fun d => d.1 < r)).watch nameSpace r pred
  stream (p.1.processAll (l.filter fun d => ¬ d.1 < r), p.2)

/-- What a watch makes of some events. -/
def delivered (nameSpace : String) (pred : DataObject V → Bool) (l : List (WatchCacheEvent V)) :
    List (WatchEvent V) :=
  l.filterMap (CacheWatcher.convertToWatchEvent ⟨nameSpace, pred, []⟩)

/-- The accepted events from a revision on. -/
def acceptedFrom (cs : CacheStore V) (l : List (Drawn V)) (r : ℤ) : List (WatchCacheEvent V) :=
  (cs.accepted l).filter fun a => decide (r ≤ a.channelRev)

/-- An event takes an object out of the selection, and its new object does not pass
the predicate. -/
def Leaves (nameSpace : String) (pred : DataObject V → Bool) (a : WatchCacheEvent V) : Prop :=
  pred a.obj = false ∧
    a.prevObj.any (CacheWatcher.matchObj ⟨nameSpace, pred, []⟩ a.key) = true

/-- The ring starts at the latest right after `r`. -/
def Reaches (cs : CacheStore V) (r : ℤ) : Prop :=
  ∀ a ∈ cs.cache.events.head?, a.channelRev ≤ r + 1

instance (nameSpace : String) (pred : DataObject V → Bool) (a : WatchCacheEvent V) :
    Decidable (Leaves nameSpace pred a) := inferInstanceAs (Decidable (_ ∧ _))

variable {nameSpace : String} {pred : DataObject V → Bool}

/-- An event whose new object does not pass the predicate is converted to nothing,
unless it takes an object out of the selection. -/
theorem convert_eq_none_iff {a : WatchCacheEvent V} (h : pred a.obj = false) :
    CacheWatcher.convertToWatchEvent ⟨nameSpace, pred, []⟩ a = none ↔
    ¬ Leaves nameSpace pred a := by
  have hcur : CacheWatcher.matchObj ⟨nameSpace, pred, []⟩ a.key a.obj = false := by
    simp [CacheWatcher.matchObj, h]
  unfold CacheWatcher.convertToWatchEvent Leaves
  rcases hprev : a.prevObj with _ | o
  · simp [hcur]
  · simp only [hcur, Bool.and_false, Option.any_some, Bool.false_and,
      Bool.false_eq_true, ↓reduceIte,
      Bool.not_false, Bool.true_and, h, true_and]
    split
    next hold => simp [hold]
    next hold => simp [hold]

/-- A ring is empty only before the first event. -/
theorem head_eq_zero (hcs : cs.cache = {}) (h : (cs.processAll l).cache.events = []) :
    (cs.processAll l).cache.head = 0 := by
  obtain ⟨hevents, hhead⟩ := ring_processAll (l := l) hcs
  rw [h, hhead] at hevents
  have hlen := congrArg List.length hevents.symm
  rw [List.length_drop, List.length_nil] at hlen
  have hcount : 0 < defaultCacheCount := by decide
  unfold RingBuf.lost at hhead hlen
  omega

theorem oldest_of_ring (hlist : cs.listRevision = 0)
    (hempty : cs.cache.events = [] → cs.cache.head = 0) :
    cs.oldest = some (cs.cache.events.head?.elim 1 WatchCacheEvent.channelRev) := by
  unfold oldest RingBuf.tail
  rw [hlist]
  rcases hevents : cs.cache.events with _ | ⟨a, events⟩
  · simp [hempty hevents]
  · simp

/-- The watch can be opened exactly if the ring reaches back far enough. -/
theorem getAllEvents_eq (hlist : cs.listRevision = 0) (hr : 0 < r)
    (hempty : cs.cache.events = [] → cs.cache.head = 0) :
    (cs.Reaches r → cs.getAllEvents r pred = .ok (cs.cache.getAllEvents r pred)) ∧
      (¬ cs.Reaches r → ∃ msg, cs.getAllEvents r pred = .error msg) := by
  have hne : r ≠ 0 := by omega
  have hreaches : cs.Reaches r ↔ ¬ r < cs.cache.events.head?.elim 1 WatchCacheEvent.channelRev - 1 := by
    unfold Reaches
    rcases cs.cache.events.head? with _ | a
    · simp only [Option.mem_def, reduceCtorEq, false_imp_iff, implies_true,
        Option.elim_none, true_iff]
      omega
    · simp only [Option.mem_def, Option.some.injEq, forall_eq', Option.elim_some]
      omega
  unfold getAllEvents
  rw [oldest_of_ring hlist hempty, hreaches]
  dsimp only
  rw [if_neg hne]
  refine ⟨fun h => if_neg h, fun h => ⟨_, if_pos (not_not.mp h)⟩⟩

/-- What a watch starts with. -/
theorem stream_watch (hlist : cs.listRevision = 0) (hr : 0 < r)
    (hempty : cs.cache.events = [] → cs.cache.head = 0) (h : cs.Reaches r) :
    stream (cs.watch nameSpace r pred)
    = some (delivered nameSpace pred (cs.cache.getAllEvents r pred)) := by
  unfold stream watch
  rw [(getAllEvents_eq hlist hr hempty).1 h]
  simp only [Option.bind_some, sent_foldl_send, BTreeMap.get_insert_self, Option.map_some,
    List.nil_append, delivered]

/-- A watch that cannot be opened. -/
theorem stream_watch_none (hlist : cs.listRevision = 0) (hr : 0 < r)
    (hempty : cs.cache.events = [] → cs.cache.head = 0) (h : ¬ cs.Reaches r) :
    stream (cs.watch nameSpace r pred) = none := by
  unfold stream watch
  obtain ⟨msg, hmsg⟩ : ∃ msg, cs.getAllEvents r pred = .error msg :=
    (getAllEvents_eq hlist hr hempty).2 h
  rw [hmsg]
  rfl

/-! ## The live stream -/

theorem listRevision_processAll : (cs.processAll l).listRevision = cs.listRevision := by
  induction l generalizing cs with
  | nil => rfl
  | cons d l ih =>
    have hone : ((cs.processEvent noneFull d.1 d.2).processAll l).listRevision = _ := ih
    refine hone.trans ?_
    unfold processEvent
    split
    next => rfl
    next => rfl

/-- While its channel has room, a watcher is sent what it makes of the accepted
events. -/
theorem get_processAll {wid : ℕ} {w : CacheWatcher V} (h : cs.watchers[wid]? = some w) :
    (cs.processAll l).watchers[wid]? =
      some { w with sent := w.sent ++ (cs.accepted l).filterMap w.convertToWatchEvent } := by
  induction l generalizing cs w with
  | nil => simpa [processAll, accepted] using h
  | cons d l ih =>
    show ((cs.processEvent noneFull d.1 d.2).processAll l).watchers[wid]? = _
    rw [accepted, List.filterMap_append]
    by_cases hstale : cs.stale d.2 = true
    · have hsame : cs.processEvent noneFull d.1 d.2 = cs := CacheStore.processEvent_of_stale hstale
      rw [hsame, ih h, if_pos hstale, List.filterMap_nil, List.nil_append]
    · rw [Bool.not_eq_true] at hstale
      have hsend : (cs.processEvent noneFull d.1 d.2).watchers[wid]? =
          some (w.send (cs.cacheEvent d.1 d.2)) := by
        rw [watchers_processEvent noneFull d.1 hstale, h]
        simp [noneFull]
      have hconvert : (w.send (cs.cacheEvent d.1 d.2)).convertToWatchEvent
        = w.convertToWatchEvent :=
        convertToWatchEvent_congr rfl rfl
      rw [ih hsend, hconvert, hstale]
      simp only [Bool.false_eq_true, ↓reduceIte, CacheWatcher.send]
      rcases hev : w.convertToWatchEvent (cs.cacheEvent d.1 d.2) with _ | ev
      · simp [hev]
      · simp [hev]

/-! ## Replay and live stream -/

/-- Calls with rising revisions are those before `r`, then the others. -/
theorem filter_append_filter (h : (l.map Prod.fst).Pairwise (· < ·)) :
    (l.filter fun d => d.1 < r) ++ (l.filter fun d => ¬ d.1 < r) = l := by
  induction l with
  | nil => rfl
  | cons d l ih =>
    rw [List.map_cons, List.pairwise_cons] at h
    by_cases hd : d.1 < r
    · rw [List.filter_cons_of_pos (by simpa using hd), List.filter_cons_of_neg (by simpa using hd),
        List.cons_append, ih h.2]
    · have hbefore : l.filter (fun d => decide (d.1 < r)) = [] := by
        refine List.filter_eq_nil_iff.mpr fun d' hd' => ?_
        have hlt := h.1 d'.1 (List.mem_map_of_mem hd')
        simp only [decide_eq_true_eq]
        omega
      have hafter : l.filter (fun d => decide (¬ d.1 < r)) = l := by
        refine List.filter_eq_self.mpr fun d' hd' => ?_
        have hlt := h.1 d'.1 (List.mem_map_of_mem hd')
        simp only [decide_eq_true_eq]
        omega
      rw [List.filter_cons_of_neg (by simpa using hd), List.filter_cons_of_pos (by simpa using hd),
        hbefore, hafter, List.nil_append]

/-- Calls whose revisions are all at least `r` come after calls whose revisions
are all less. -/
theorem acceptedFrom_append {l' : List (Drawn V)} (h : ∀ d ∈ l, d.1 < r) (h' : ∀ d ∈ l', r ≤ d.1) :
    cs.acceptedFrom (l ++ l') r = (cs.processAll l).accepted l' := by
  unfold acceptedFrom
  rw [accepted_append, List.filter_append]
  have hbefore : (cs.accepted l).filter (fun a => decide (r ≤ a.channelRev)) = [] := by
    refine List.filter_eq_nil_iff.mpr fun a ha => ?_
    obtain ⟨d, hd, heq⟩ := mem_accepted ha
    have hlt := h d hd
    simp only [decide_eq_true_eq]
    omega
  have hafter : ((cs.processAll l).accepted l').filter (fun a => decide (r ≤ a.channelRev)) =
      (cs.processAll l).accepted l' := by
    refine List.filter_eq_self.mpr fun a ha => ?_
    obtain ⟨d, hd, heq⟩ := mem_accepted ha
    have hle := h' d hd
    simp only [decide_eq_true_eq]
    omega
  rw [hbefore, hafter, List.nil_append]

/-- A ring whose events are all older than `r` reaches back to it. -/
theorem reaches_of_older (hcs : cs.cache = {}) (h : ∀ d ∈ l, d.1 < r) :
    (cs.processAll l).Reaches r := by
  intro a ha
  have hmem : a ∈ cs.accepted l := by
    rw [accepted_eq hcs]
    exact List.mem_append_right _ (List.mem_of_mem_head? ha)
  obtain ⟨d, hd, heq⟩ := mem_accepted hmem
  have hlt := h d hd
  omega

/-- **The live stream.** A watch that is there all along is sent what it makes of
the accepted events. -/
theorem early_eq (hcs : cs.cache = {}) (hlist : cs.listRevision = 0) (hr : 0 < r)
    (hrising : (l.map Prod.fst).Pairwise (· < ·)) :
    cs.early l nameSpace r pred = some (delivered nameSpace pred (cs.acceptedFrom l r)) := by
  have hbefore : ∀ d ∈ l.filter (fun d => decide (d.1 < r)), d.1 < r := by
    intro d hd
    simpa using (List.mem_filter.mp hd).2
  have hafter : ∀ d ∈ l.filter (fun d => decide (¬ d.1 < r)), r ≤ d.1 := by
    intro d hd
    simpa using (List.mem_filter.mp hd).2
  have hsplit : cs.acceptedFrom _ r = _ := acceptedFrom_append hbefore hafter
  rw [filter_append_filter hrising] at hsplit
  rw [hsplit]
  unfold early
  have hlist' : (cs.processAll (l.filter fun d => decide (d.1 < r))).listRevision = 0 := by
    rw [listRevision_processAll, hlist]
  -- nothing has been accepted yet that the watch would start with
  have hnone : (cs.processAll (l.filter
    fun d => decide (d.1 < r))).cache.getAllEvents r pred = [] := by
    refine List.filter_eq_nil_iff.mpr fun a ha => ?_
    have hmem : a ∈ cs.accepted (l.filter fun d => decide (d.1 < r)) := by
      rw [accepted_eq hcs]
      exact List.mem_append_right _ ha
    obtain ⟨d, hd, heq⟩ := mem_accepted hmem
    have hlt := hbefore d hd
    have hnot : ¬ r ≤ a.channelRev := by omega
    simp [hnot]
  have hopen : getAllEvents _ r pred = _ :=
    (getAllEvents_eq hlist' hr (head_eq_zero hcs)).1 (reaches_of_older hcs hbefore)
  rw [hnone] at hopen
  unfold watch
  rw [hopen]
  unfold stream
  simp only [Option.bind_some, List.foldl_nil]
  rw [get_processAll (BTreeMap.get_insert_self ..)]
  simp only [Option.map_some, List.nil_append, delivered]
  congr 2
  exact accepted_congr rfl

/-- What the ring still holds of the events from `r` on, if none of them has been
overwritten. -/
theorem ring_getAllEvents (hcs : cs.cache = {}) (hkept : ∀ a ∈ cs.overwritten l, a.channelRev < r) :
    (cs.processAll l).cache.getAllEvents r pred =
      (cs.acceptedFrom l r).filter fun a => pred a.obj := by
  unfold acceptedFrom RingBuf.getAllEvents
  rw [accepted_eq hcs, List.filter_append]
  have hlost : (cs.overwritten l).filter (fun a => decide (r ≤ a.channelRev)) = [] := by
    refine List.filter_eq_nil_iff.mpr fun a ha => ?_
    have hlt := hkept a ha
    simp only [decide_eq_true_eq]
    omega
  rw [hlost, List.nil_append, List.filter_filter]
  congr 1
  funext a
  rw [Bool.and_comm]

/-- The replay makes of the events what the live stream does exactly if none of
them takes an object out of the selection. -/
theorem delivered_filter_iff (events : List (WatchCacheEvent V)) :
    delivered nameSpace pred (events.filter fun a => pred a.obj) = delivered nameSpace pred events ↔
      ∀ a ∈ events, ¬ Leaves nameSpace pred a := by
  unfold delivered
  rw [List.filterMap_filter_eq_iff]
  refine forall₂_congr fun a _ => ?_
  rcases hpred : pred a.obj with _ | _
  · rw [convert_eq_none_iff hpred]
    simp
  · simp [Leaves, hpred]

/-- The ring starts after everything that has been overwritten. -/
theorem lost_lt_ring {a b : WatchCacheEvent V} (hcs : cs.cache = {})
    (hrising : (l.map Prod.fst).Pairwise (· < ·)) (ha : a ∈ cs.overwritten l)
    (hb : b ∈ (cs.processAll l).cache.events) : a.channelRev < b.channelRev := by
  have hpair : (cs.accepted l).Pairwise _ := pairwise_accepted hrising
  rw [accepted_eq hcs] at hpair
  exact (List.pairwise_append.mp hpair).2.2 a ha b hb

/-- An accepted event is overwritten or still in the ring, not both. -/
theorem mem_overwritten_iff {a : WatchCacheEvent V} (hcs : cs.cache = {})
    (hrising : (l.map Prod.fst).Pairwise (· < ·)) :
    a ∈ cs.overwritten l ↔ a ∈ cs.accepted l ∧ a ∉ (cs.processAll l).cache.events := by
  rw [accepted_eq hcs, List.mem_append]
  constructor
  · intro h
    refine ⟨Or.inl h, fun hring => ?_⟩
    have hlt := lost_lt_ring hcs hrising h hring
    omega
  · rintro ⟨h | h, hnot⟩
    · exact h
    · exact absurd h hnot

/-- Where something has been overwritten the ring is not empty. -/
theorem ring_ne_nil {a : WatchCacheEvent V} (hcs : cs.cache = {}) (h : a ∈ cs.overwritten l) :
    (cs.processAll l).cache.events ≠ [] := by
  intro hempty
  rw [overwritten, head_eq_zero hcs hempty, List.take_zero] at h
  cases h

/-- A watch from `r` on where the calls before `r` are known. -/
theorem gapless_iff {l' : List (Drawn V)} (hcs : cs.cache = {})
    (hlist : cs.listRevision = 0) (hr : 0 < r)
    (hrising : ((l ++ l').map Prod.fst).Pairwise (· < ·)) (h : ∀ d ∈ l, d.1 < r)
    (h' : ∀ d ∈ l', r ≤ d.1) :
    (∀ events, stream ((cs.processAll (l ++ l')).watch nameSpace r pred) = some events →
        events = delivered nameSpace pred ((cs.processAll l).accepted l')) ∧
      ((∃ a ∈ (cs.processAll l).accepted l', a ∉ (cs.processAll (l ++ l')).cache.events) →
        stream ((cs.processAll (l ++ l')).watch nameSpace r pred) = none) ↔
    ¬ ((∃ a ∈ (cs.processAll l).accepted l', a ∉ (cs.processAll (l ++ l')).cache.events) ∧
        ∃ a ∈ (cs.processAll (l ++ l')).cache.events.head?, a.channelRev = r + 1) ∧
      ((cs.processAll (l ++ l')).Reaches r →
        ∀ a ∈ (cs.processAll l).accepted l', ¬ Leaves nameSpace pred a) := by
  have hlist' : (cs.processAll (l ++ l')).listRevision = 0 := by
    rw [listRevision_processAll, hlist]
  have hsince : cs.acceptedFrom _ r = _ := acceptedFrom_append h h'
  by_cases hreach : (cs.processAll (l ++ l')).Reaches r
  · by_cases hlost : ∃ a ∈ (cs.processAll l).accepted l', a ∉ (cs.processAll (l ++ l')).cache.events
    · -- the ring starts right after the event that has been overwritten
      obtain ⟨a, ha, hnot⟩ := hlost
      have hover : a ∈ cs.overwritten (l ++ l') := by
        refine (mem_overwritten_iff hcs hrising).mpr ⟨?_, hnot⟩
        rw [accepted_append]
        exact List.mem_append_right _ ha
      obtain ⟨b, events, hring⟩ := List.exists_cons_of_ne_nil (ring_ne_nil hcs hover)
      have hb : b ∈ (cs.processAll (l ++ l')).cache.events.head? := by rw [hring]; rfl
      obtain ⟨d, hd, heq⟩ := mem_accepted ha
      have hlt := lost_lt_ring hcs hrising hover (List.mem_of_mem_head? hb)
      have hle := hreach b hb
      have hstart := h' d hd
      refine ⟨fun hgap => ?_, fun hcond => absurd ⟨⟨a, ha, hnot⟩, b, hb, by omega⟩ hcond.1⟩
      have hnone := hgap.2 ⟨a, ha, hnot⟩
      rw [stream_watch hlist' hr (head_eq_zero hcs) hreach] at hnone
      cases hnone
    · have hkept : ∀ a ∈ cs.overwritten (l ++ l'), a.channelRev < r := by
        intro a ha
        obtain ⟨hacc, hnot⟩ := (mem_overwritten_iff hcs hrising).mp ha
        rw [accepted_append, List.mem_append] at hacc
        rcases hacc with hacc | hacc
        · obtain ⟨d, hd, heq⟩ := mem_accepted hacc
          have hlt := h d hd
          omega
        · exact absurd ⟨a, hacc, hnot⟩ hlost
      rw [stream_watch hlist' hr (head_eq_zero hcs) hreach, ring_getAllEvents hcs hkept, hsince]
      simp only [Option.some.injEq, forall_eq', hlost, false_imp_iff, and_true, false_and,
        not_false_eq_true, hreach, true_imp_iff, true_and]
      exact delivered_filter_iff _
  · rw [stream_watch_none hlist' hr (head_eq_zero hcs) hreach]
    simp only [reduceCtorEq, false_imp_iff, implies_true, and_true, hreach, true_iff]
    -- the ring starts too late, and not right after `r`
    rintro ⟨-, b, hb, heq⟩
    refine hreach fun b' hb' => ?_
    obtain rfl := Option.some.inj (hb.symm.trans hb')
    omega

/-- **Late watchers.** For every history of calls on a new store, whatever the
namespace and the predicate: as long as no event from `r` on has been
overwritten, a watch from `r` on that is opened now is sent what one that was
opened just before `r` has been sent exactly if the ring starts at `r + 1` or
before and no event from `r` on takes an object out of the selection with an
object that does not pass the predicate. -/
theorem late_eq_early_iff {objectType : String} (hrising : Rising 0 l) (hr : 0 < r)
    (hkept : ∀ a ∈ overwritten { objectType } l, a.channelRev < r) :
    (∃ sent, late { objectType } l nameSpace r pred = some sent ∧
        early { objectType } l nameSpace r pred = some sent) ↔
      (processAll { objectType } l).Reaches r ∧
        ∀ a ∈ acceptedFrom { objectType } l r, ¬ Leaves nameSpace pred a := by
  rw [early_eq rfl rfl hr hrising.1]
  have hlist : (processAll { objectType } l : CacheStore V).listRevision = 0 :=
    listRevision_processAll
  unfold late
  by_cases hreach : (processAll { objectType } l).Reaches r
  · rw [stream_watch hlist hr (head_eq_zero rfl) hreach, ring_getAllEvents rfl hkept]
    simp only [Option.some.injEq, hreach, true_and]
    rw [← delivered_filter_iff]
    constructor
    · rintro ⟨sent, hlate, hearly⟩
      rw [hlate, hearly]
    · intro h
      exact ⟨_, h, rfl⟩
  · rw [stream_watch_none hlist hr (head_eq_zero rfl) hreach]
    simp [hreach]

namespace Sample

/-- An object whose payload is a number. -/
def numbered (object revision : ℤ) : DataObject ℤ where
  objType := "pod"
  tenant := "t"
  nameSpace := "n"
  name := "a"
  revision := revision
  object := object

/-- An object is added with payload 1, and its payload becomes 2. -/
def change : List (Drawn ℤ) := [(1, ⟨.added, numbered 1 1⟩), (2, ⟨.modified, numbered 2 2⟩)]

end Sample

theorem rising_change : Rising 0 Sample.change := ⟨by decide, by decide⟩

/-- A watch for all objects is sent the change, however late it is opened. -/
theorem late_eq_early_change : Rising 0 Sample.change ∧
    ∃ sent, late { objectType := "pod" } Sample.change "" 2 (fun _ => true) = some sent ∧
      early { objectType := "pod" } Sample.change "" 2 (fun _ => true) = some sent := by
  refine ⟨rising_change, (late_eq_early_iff rising_change (by decide) ?_).mpr ⟨?_, fun a _ h => ?_⟩⟩
  · intro a ha
    cases ha
  · intro a ha
    obtain rfl := Option.some.inj ha
    decide
  · cases h.1

/-- A watch for payload 1 that is opened after the change is not told that the
object is gone. -/
theorem late_misses_leaving : ¬ ∀ (objectType : String) (l : List (Drawn ℤ)) (nameSpace : String)
    (r : ℤ) (pred : DataObject ℤ → Bool), Rising 0 l → 0 < r →
    (∀ a ∈ overwritten { objectType } l, a.channelRev < r) →
    ∃ sent, late { objectType } l nameSpace r pred = some sent ∧
      early { objectType } l nameSpace r pred = some sent := by
  intro h
  obtain ⟨sent, hlate, hearly⟩ := h "pod" Sample.change "" 2
    (fun o => o.object == 1) rising_change (by decide)
    (fun a ha => by cases ha)
  have hnone : (late { objectType := "pod" } Sample.change "" 2
    fun o => o.object == 1).map List.length =
      some 0 := by
    decide +kernel
  have hone : (early { objectType := "pod" } Sample.change "" 2
    fun o => o.object == 1).map List.length =
      some 1 := by
    decide +kernel
  rw [hlate] at hnone
  rw [hearly, hnone] at hone
  cases hone

end CacheStore

/-! ## A list and then a watch -/

open CacheStore

/-- Several stores that draw their revisions from one counter. -/
structure Stores (ι V : Type) where
  /-- the stores -/
  store : ι → CacheStore V
  /-- the last revision drawn -/
  channelRev : ℤ := 0

namespace Stores

variable {ι : Type} [DecidableEq ι]

/-- New stores. -/
def new (objectType : ι → String) : Stores ι V where
  store i := { objectType := objectType i }

/-- `ChannelRev::Current`, which is the revision that is drawn next. -/
def current (s : Stores ι V) : ℤ := s.channelRev + 1

/-- `CacheStore::List` on one of the stores. -/
def list (s : Stores ι V) (i : ι) (tenant nameSpace : String) (pred : DataObject V → Bool) :
    List (DataObject V) × ℤ := ((s.store i).list tenant nameSpace pred, s.current)

/-- `CacheStore::ProcessEvent` on one of the stores. -/
def process (s : Stores ι V) (i : ι) (e : WatchEvent V) : Stores ι V where
  store := Function.update s.store i ((s.store i).processEvent noneFull (s.channelRev + 1) e)
  channelRev := s.channelRev + 1

/-- Some events, each on one of the stores. -/
def processAll (s : Stores ι V) (l : List (ι × WatchEvent V)) : Stores ι V :=
  l.foldl (fun s p => s.process p.1 p.2) s

/-- The calls of one store, with the revisions they draw. -/
def callsOf (i : ι) (c : ℤ) : List (ι × WatchEvent V) → List (Drawn V)
  | [] => []
  | p :: l => (if p.1 = i then [(c + 1, p.2)] else []) ++ callsOf i (c + 1) l

/-- What a store accepts of some events. -/
def acceptedBy (s : Stores ι V) (i : ι) (l : List (ι × WatchEvent V)) : List (WatchCacheEvent V) :=
  (s.store i).accepted (callsOf i s.channelRev l)

/-- The ring of a store. -/
def ring (s : Stores ι V) (i : ι) : List (WatchCacheEvent V) := (s.store i).cache.events

/-- The store is listed, then some events come, then it is watched from the
revision of the list on: either the watch is sent all the store has accepted
since, or it is refused, and it is refused if one of them has been overwritten. -/
def NoGap (s : Stores ι V) (l : List (ι × WatchEvent V)) (i : ι) (tenant nameSpace : String)
    (pred : DataObject V → Bool) : Prop :=
  let r := (s.list i tenant nameSpace pred).2
  let sent := stream (((s.processAll l).store i).watch nameSpace r pred)
  (∀ events, sent = some events → events = delivered nameSpace pred (s.acceptedBy i l)) ∧
    ((∃ a ∈ s.acceptedBy i l, a ∉ (s.processAll l).ring i) → sent = none)

variable {s : Stores ι V} {l : List (ι × WatchEvent V)} {i : ι} {c : ℤ}

theorem store_processAll (s : Stores ι V) (l : List (ι × WatchEvent V)) (i : ι) :
    (s.processAll l).store i = (s.store i).processAll (callsOf i s.channelRev l) := by
  induction l generalizing s with
  | nil => rfl
  | cons p l ih =>
    have hstep : (s.processAll (p :: l)).store i = ((s.process p.1 p.2).processAll l).store i := rfl
    rw [hstep, ih, callsOf, CacheStore.processAll_append]
    by_cases hp : p.1 = i
    · subst hp
      rw [if_pos rfl]
      congr 1
      exact Function.update_self ..
    · rw [if_neg hp]
      congr 1
      exact Function.update_of_ne (Ne.symm hp) _ _

theorem channelRev_processAll (s : Stores ι V) (l : List (ι × WatchEvent V)) :
    (s.processAll l).channelRev = s.channelRev + l.length := by
  induction l generalizing s with
  | nil => simp [processAll]
  | cons p l ih =>
    have hstep : (s.processAll (p :: l)).channelRev
      = ((s.process p.1 p.2).processAll l).channelRev := rfl
    rw [hstep, ih, List.length_cons]
    simp only [process]
    omega

/-- The calls of a store have revisions between the first and the last drawn. -/
theorem mem_callsOf {d : Drawn V} (h : d ∈ callsOf i c l) : c < d.1 ∧ d.1 ≤ c + l.length := by
  induction l generalizing c with
  | nil => cases h
  | cons p l ih =>
    rw [callsOf, List.mem_append] at h
    rw [List.length_cons]
    rcases h with h | h
    · split at h
      next =>
        rw [List.mem_singleton] at h
        rw [h]
        dsimp only
        omega
      next => cases h
    · have hd := ih h
      omega

theorem rising_callsOf (i : ι) (c : ℤ) (l : List (ι × WatchEvent V)) :
    ((callsOf i c l).map Prod.fst).Pairwise (· < ·) := by
  induction l generalizing c with
  | nil => exact List.Pairwise.nil
  | cons p l ih =>
    rw [callsOf, List.map_append]
    split
    next =>
      refine List.pairwise_cons.mpr ⟨fun x hx => ?_, ih (c + 1)⟩
      obtain ⟨d, hd, rfl⟩ := List.mem_map.mp hx
      exact (mem_callsOf hd).1
    next => exact ih (c + 1)

theorem callsOf_append (i : ι) (c : ℤ) (l l' : List (ι × WatchEvent V)) :
    callsOf i c (l ++ l') = callsOf i c l ++ callsOf i (c + l.length) l' := by
  induction l generalizing c with
  | nil => simp [callsOf]
  | cons p l ih =>
    have hc : c + 1 + (l.length : ℤ) = c + ((p :: l).length : ℕ) := by
      rw [List.length_cons]
      omega
    rw [List.cons_append, callsOf, callsOf, ih, hc, List.append_assoc]

/-- **A list and then a watch.** For every history of new stores that share their
revisions, every store, namespace and predicate, nothing is missed between a list
and a watch exactly if two things do not happen: the event right after the list
has been overwritten and the ring now starts with the one after it, or the ring
still reaches back to the list and an event since takes an object out of the
selection with an object that does not pass the predicate. -/
theorem noGap_iff (objectType : ι → String) (before after : List (ι × WatchEvent V)) (i : ι)
    (tenant nameSpace : String) (pred : DataObject V → Bool) :
    let s := (new objectType).processAll before
    s.NoGap after i tenant nameSpace pred ↔
      ¬ ((∃ a ∈ s.acceptedBy i after, a ∉ (s.processAll after).ring i) ∧
          ∃ a ∈ ((s.processAll after).ring i).head?, a.channelRev = s.current + 1) ∧
        (((s.processAll after).store i).Reaches s.current →
          ∀ a ∈ s.acceptedBy i after, ¬ Leaves nameSpace pred a) := by
  intro s
  have hrev : s.channelRev = before.length := by
    rw [channelRev_processAll]
    exact Int.zero_add _
  have hstore : s.store i = CacheStore.processAll { objectType := objectType i }
    (callsOf i 0 before) :=
    store_processAll (new objectType) before i
  have hcalls : callsOf i 0 (before ++ after) =
      callsOf i 0 before ++ callsOf i s.channelRev after := by
    rw [callsOf_append, hrev, Int.zero_add]
  have hfinal : (s.processAll after).store i = CacheStore.processAll { objectType := objectType i }
      (callsOf i 0 before ++ callsOf i s.channelRev after) := by
    rw [store_processAll, hstore, CacheStore.processAll_append]
  have hrising := rising_callsOf i 0 (before ++ after)
  rw [hcalls] at hrising
  unfold NoGap acceptedBy ring list
  rw [hfinal, hstore]
  refine gapless_iff rfl rfl ?_ hrising (fun d hd => ?_) fun d hd => ?_
  · unfold current
    omega
  · have hd' := mem_callsOf hd
    unfold current
    omega
  · have hd' := mem_callsOf hd
    unfold current
    omega

/-! ## The event that is missed -/

namespace Sample

/-- An object is modified again and again. -/
def updates (n : ℕ) : List (Unit × WatchEvent ℤ) :=
  (List.range n).map fun k => ((), ⟨.modified, CacheStore.Sample.numbered 0 (k + 1)⟩)

end Sample

theorem acceptedBy_append (s : Stores ι V) (i : ι) (l l' : List (ι × WatchEvent V)) :
    s.acceptedBy i (l ++ l') = s.acceptedBy i l ++ (s.processAll l).acceptedBy i l' := by
  unfold acceptedBy
  rw [callsOf_append, accepted_append, store_processAll, channelRev_processAll]

/-- Every update is newer than the one before, so all of them are accepted. -/
theorem acceptedBy_updates (n : ℕ) (t : Unit → String) :
    ((new t).acceptedBy () (Sample.updates n)).map WatchCacheEvent.channelRev =
        (List.range n).map (fun k : ℕ => (k : ℤ) + 1) ∧
      ∀ o ∈ (((new t).processAll (Sample.updates n)).store ()).cacheStore["t/n/a"]?,
        o.revision ≤ n := by
  induction n with
  | zero =>
    refine ⟨rfl, fun o ho => ?_⟩
    cases ho
  | succ n ih =>
    have hsnoc : Sample.updates (n + 1) =
        Sample.updates n ++ [((), ⟨.modified, CacheStore.Sample.numbered 0 (n + 1)⟩)] := by
      simp [Sample.updates, List.range_succ]
    generalize hs : (new t).processAll (Sample.updates n) = s at ih
    have hrev : s.channelRev = n := by
      rw [← hs, channelRev_processAll]
      simp [new, Sample.updates]
    have hfresh : (s.store ()).stale ⟨.modified, CacheStore.Sample.numbered 0 (n + 1)⟩ = false := by
      unfold CacheStore.stale
      rw [Option.any_eq_false]
      intro o ho
      have hle := ih.2 o ho
      have hnot : ¬ ((n : ℤ) + 1 ≤ o.revision) := by omega
      exact decide_eq_false hnot
    constructor
    · rw [hsnoc, acceptedBy_append, hs, List.map_append, ih.1, List.range_succ, List.map_append]
      congr 1
      simp only [acceptedBy, callsOf, ↓reduceIte, List.append_nil, accepted, hfresh,
        Bool.false_eq_true,
        List.map_cons, List.map_nil, cacheEvent, hrev]
    · intro o ho
      have hsplit : (new t).processAll (Sample.updates (n + 1)) =
          s.process () ⟨.modified, CacheStore.Sample.numbered 0 (n + 1)⟩ := by
        rw [hsnoc, ← hs]
        exact List.foldl_append ..
      rw [hsplit] at ho
      simp only [process, Function.update_self] at ho
      rcases get_processEvent ho with hold | ⟨-, rfl⟩
      · have hle := ih.2 o hold
        push_cast
        omega
      · simp [CacheStore.Sample.numbered]

/-- A new store is listed, then it accepts one event more than the ring holds, and
the second comes right after the first: the first is missed. -/
theorem not_noGap {t : ι → String} {a b : WatchCacheEvent V} {rest : List (WatchCacheEvent V)}
    {tenant nameSpace : String} {pred : DataObject V → Bool}
    (hacc : (new t).acceptedBy i l = a :: b :: rest)
    (hlen : (a :: b :: rest).length = defaultCacheCount + 1) (hb : b.channelRev = 2) :
    ¬ (new t).NoGap l i tenant nameSpace pred := by
  intro hgap
  have hnew : ((new t : Stores ι V).store i).cache = {} := rfl
  obtain ⟨hring, hhead⟩ := ring_processAll (l := callsOf i 0 l) hnew
  have hlost : RingBuf.lost (defaultCacheCount + 1) = 1 := Nat.add_sub_cancel_left ..
  have hevents : (((new t).processAll l).store i).cache.events = b :: rest := by
    rw [store_processAll]
    refine hring.trans ?_
    rw [hhead]
    change List.drop (RingBuf.lost ((new t).acceptedBy i l).length) ((new t).acceptedBy i l) = _
    rw [hacc, hlen, hlost, List.drop_one, List.tail_cons]
  have hpair : List.Pairwise _ (((new t : Stores ι V).store i).accepted (callsOf i 0 l)) :=
    pairwise_accepted (rising_callsOf i 0 l)
  change List.Pairwise _ ((new t).acceptedBy i l) at hpair
  rw [hacc, List.pairwise_cons] at hpair
  have hnone := hgap.2 ⟨a, by rw [hacc]; exact List.mem_cons_self, fun hmem => by
    unfold ring at hmem
    rw [hevents] at hmem
    exact Int.lt_irrefl _ (hpair.1 a hmem)⟩
  change stream ((((new t).processAll l).store i).watch nameSpace 1 pred) = none at hnone
  have hreach : (((new t).processAll l).store i).Reaches 1 := by
    intro c hc
    rw [hevents] at hc
    obtain rfl := Option.some.inj hc
    rw [hb]
    decide
  rw [store_processAll] at hreach hnone
  rw [stream_watch (by rw [listRevision_processAll]; rfl) (by decide) (head_eq_zero rfl) hreach] at hnone
  cases hnone

/-- The store is listed, 2001 updates follow, and the ring, which holds 2000 of
them, starts right after the first: a watch from the revision of the list on is
opened and never sent the first update. -/
theorem first_update_missed : ¬ ∀ (objectType : Unit → String)
    (before after : List (Unit × WatchEvent ℤ))
    (tenant nameSpace : String) (pred : DataObject ℤ → Bool),
    ((new objectType).processAll before).NoGap after () tenant nameSpace pred := by
  intro h
  have hgap := h (fun _ => "pod") [] (Sample.updates (defaultCacheCount + 1)) "" "" fun _ => true
  obtain ⟨hrevs, -⟩ := acceptedBy_updates (defaultCacheCount + 1) fun _ => "pod"
  obtain ⟨n, hn⟩ : ∃ n, defaultCacheCount + 1 = n + 1 + 1 := ⟨1999, rfl⟩
  have hlen := congrArg List.length hrevs
  rw [List.length_map, List.length_map, List.length_range] at hlen
  -- the two oldest events
  rw [hn, List.range_succ_eq_map, List.map_cons, List.range_succ_eq_map, List.map_cons,
    List.map_cons, ← hn] at hrevs
  obtain ⟨a, rest, hacc, -, hrest⟩ := List.map_eq_cons_iff.mp hrevs
  obtain ⟨b, rest, rfl, hb, -⟩ := List.map_eq_cons_iff.mp hrest
  rw [hacc] at hlen
  exact not_noGap hacc hlen hb hgap

end Stores

end Inferx.Metastore
