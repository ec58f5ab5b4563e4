import Inferx.Lib.Runs
import Inferx.Metastore.CacheStore

/-!
# Writes to the service directory

The create, update and delete requests of `SvcDir`, which run concurrently. A
request is a thread that first draws a revision and changes the cache later; a
delete reads the object in between. Each of these steps is atomic (the counter
is an atomic integer, the cache is behind a lock), and the steps of different
requests interleave in any order: `World.next` lets a request arrive or one
thread take its next step.

The cache drops an event that is not newer than the object it is about, so a
write that comes late does not undo a newer one, as long as the key is there. A
delete leaves nothing behind to compare with: a create or update that is older
than a delete but applied after it brings the object back.
-/

namespace Inferx.Metastore

variable {V : Type}

/-! ## Requests -/

/-- A write request. -/
inductive Request (V : Type) where
  | create (obj : DataObject V)
  | update (obj : DataObject V)
  | delete (objType tenant nameSpace name : String) (expectRev : ℤ)
  deriving DecidableEq

namespace Request

/-- The type of the object a request is about. -/
def objType : Request V → String
  | create obj => obj.objType
  | update obj => obj.objType
  | delete objType _ _ _ _ => objType

/-- The key of the object a request is about. -/
def key : Request V → String
  | create obj => obj.key
  | update obj => obj.key
  | delete _ tenant nameSpace name _ => s!"{tenant}/{nameSpace}/{name}"

/-- What the cache holds for the key after the request: the object, or nothing. -/
def content : Request V → Option (DataObject V)
  | create obj => some obj
  | update obj => some obj
  | delete _ _ _ _ _ => none

/-- Are the two requests about the same object? -/
def SameKey (r r' : Request V) : Prop := r.objType = r'.objType ∧ r.key = r'.key

end Request

/-- How far a request is. -/
inductive Thread (V : Type) where
  /-- nothing done yet -/
  | arrived (req : Request V)
  /-- it has drawn its revision -/
  | revised (req : Request V) (version : ℤ)
  /-- a delete that has read its object -/
  | found (req : Request V) (version : ℤ) (obj : DataObject V)
  /-- answered, with the text of the error and the revision of the answer -/
  | answered (req : Request V) (version : ℤ) (error : String) (revision : ℤ)
  /-- refused before it drew a revision -/
  | refused (req : Request V) (error : String)
  deriving DecidableEq

/-- The revision of a thread. -/
def Thread.version? : Thread V → Option ℤ
  | revised _ version => some version
  | found _ version _ => some version
  | answered _ version _ _ => some version
  | _ => none

/-- Has the request been answered without error? -/
def Thread.isDone : Thread V → Bool
  | answered _ _ error _ => error == ""
  | _ => false

/-- The directory, its counter and the requests. -/
structure World (V : Type) where
  /-- the cache stores, by type -/
  map : BTreeMap String (CacheStore V) := ∅
  /-- `ChannelRev` -/
  channelRev : ℤ := 0
  /-- the requests, in the order they arrived -/
  threads : List (Thread V) := []

namespace World

/-- `ChannelRev::Current`. -/
def current (x : World V) : ℤ := x.channelRev + 1

/-- Put a thread in its new state. -/
def setThread (x : World V) (i : ℕ) (t : Thread V) : World V := { x with threads := x.threads.set i t }

/-- Draw a revision. -/
def drawn (x : World V) : World V := { x with channelRev := x.channelRev + 1 }

/-- A cache store processes an event, under a revision of its own. -/
def process (full : ℕ → Bool) (x : World V) (objType : String) (cs : CacheStore V) (e : WatchEvent V) :
    World V :=
  { x with
    map := x.map.insert objType (cs.processEvent full (x.channelRev + 1) e)
    channelRev := x.channelRev + 1 }

/-- A create or update changes the cache, or fails. -/
def write (full : ℕ → Bool) (x : World V) (i : ℕ) (req : Request V) (version : ℤ) (type : EventType)
    (obj : DataObject V) : World V :=
  match x.map[obj.objType]? with
  | none => x.setThread i (.answered req version
      s!"svcdir get doesn't support obj type {obj.objType}" 0)
  | some cs =>
    let y := x.process full obj.objType cs ⟨type, { obj with revision := version }⟩
    y.setThread i (.answered req version "" y.current)

/-- What a step takes from outside. -/
structure Env (V : Type) where
  /-- the watches whose channel is full -/
  full : ℕ → Bool := fun _ => false
  /-- does the wait for the expected revision end in time? -/
  waitOk : Bool := true
  /-- what the backend store has, if there is one -/
  backend : String → Option (DataObject V) := fun _ => none
  /-- the backend answers with the object of the key -/
  backend_key : ∀ k o, backend k = some o → o.key = k := by exact fun _ _ h => (nomatch h)

/-- The read of a delete; the revision -1 asks the backend store. -/
def read (env : Env V) (cs : CacheStore V) (key : String) (expectRev : ℤ) :
    Except String (Option (DataObject V)) :=
  if expectRev = -1 then .ok (env.backend key)
  else if expectRev ≠ 0 ∧ env.waitOk = false then .error "Fail: Timeout(3000)"
  else .ok cs.cacheStore[key]?

/-- The next step of a thread. -/
def advance (env : Env V) (x : World V) (i : ℕ) : Thread V → World V
  | .arrived req =>
    match req with
    | .delete objType _ _ _ _ =>
      match x.map[objType]? with
      | none => x.setThread i (.refused req s!"statesvc doesn't support obj type {objType}")
      | some _ => x.drawn.setThread i (.revised req (x.channelRev + 1))
    | _ => x.drawn.setThread i (.revised req (x.channelRev + 1))
  | .revised req version =>
    match req with
    | .create obj => x.write env.full i req version .added obj
    | .update obj => x.write env.full i req version .modified obj
    | .delete objType _ _ _ expectRev =>
      match x.map[objType]? with
      | none => x
      | some cs =>
        match read env cs req.key expectRev with
        | .error e => x.setThread i (.answered req version e 0)
        | .ok none => x.setThread i (.answered req version
            s!"delete object \"{objType}/{req.key}\" Fail not exist" 0)
        | .ok (some obj) => x.setThread i (.found req version obj)
  | .found req version obj =>
    match x.map[req.objType]? with
    | none => x
    | some cs =>
      let y := x.process env.full req.objType cs ⟨.deleted, { obj with revision := version }⟩
      y.setThread i (.answered req version "" y.current)
  | .answered _ _ _ _ => x
  | .refused _ _ => x

/-- What can happen. -/
inductive Input (V : Type) where
  /-- a request arrives -/
  | arrive (req : Request V)
  /-- a request takes its next step -/
  | step (i : ℕ) (env : Env V)

/-- One step of the service. -/
def next (x : World V) : Input V → Option (World V)
  | .arrive req => some { x with threads := x.threads ++ [.arrived req] }
  | .step i env => x.threads[i]?.map (x.advance env i)

/-! ## What the writes come to -/

/-- The content of a key. -/
def get (x : World V) (objType key : String) : Option (DataObject V) :=
  (x.map[objType]?).bind fun cs => cs.cacheStore[key]?

/-- The request has been answered without error, and had this revision. -/
def Done (x : World V) (req : Request V) (version : ℤ) : Prop :=
  ∃ (i : ℕ) (revision : ℤ), x.threads[i]? = some (.answered req version "" revision)

/-- No request on the same key that has been answered without error has a higher
revision. -/
def Latest (x : World V) (req : Request V) (version : ℤ) : Prop :=
  ∀ req' version', x.Done req' version' → req'.SameKey req → version' ≤ version

/-- The cache holds what the request wrote: its object under its revision, or
nothing. -/
def Holds (x : World V) (req : Request V) (version : ℤ) : Prop :=
  match req.content with
  | none => x.get req.objType req.key = none
  | some obj => ∃ c, x.get req.objType req.key = some (obj.copyWithRev c version)

/-- **The promise about a state.** Each key's content is that of the request with
the highest revision. -/
def InOrder (x : World V) : Prop :=
  ∀ req version, x.Done req version → x.Latest req version → x.Holds req version

/-- Every request has been answered without error. -/
def AllDone (x : World V) : Prop := ∀ t ∈ x.threads, t.isDone = true

/-- A create or update is not applied after a newer delete has emptied its key. -/
def NotOvertaken (x : World V) : Input V → Prop
  | .step i _ => ∀ req version obj, x.threads[i]? = some (.revised req version) →
    req.content = some obj → x.get req.objType req.key = none →
    ∀ req' version', x.Done req' version' → req'.SameKey req → req'.content = none →
      version' < version
  | _ => True

/-- A start: every object is under its own key with a revision the counter has
passed, and no request has been made. -/
structure Start (x : World V) : Prop where
  /-- objects are stored under their key -/
  keyed : ∀ (t : String) (cs : CacheStore V), x.map[t]? = some cs → Keyed cs.cacheStore
  /-- revisions are in the past -/
  past : ∀ t k o, x.get t k = some o → o.revision ≤ x.channelRev
  /-- no requests -/
  threads : x.threads = []

/-! ## The invariant -/

/-- The content of a key agrees with the requests answered so far: an object is
the latest one written, or older than all of them; where there is none, every
write has been overtaken by a delete. -/
def Settled (base : ℤ) (x : World V) (t k : String) : Prop :=
  match x.get t k with
  | some o => (∀ req v, x.Done req v → req.objType = t → req.key = k → v ≤ o.revision) ∧
    (o.revision ≤ base ∨ ∃ req obj c, x.Done req o.revision ∧ req.objType = t ∧ req.key = k ∧
      req.content = some obj ∧ o = obj.copyWithRev c o.revision)
  | none => ∀ req v obj, x.Done req v → req.objType = t → req.key = k → req.content = some obj →
    ∃ req' v', x.Done req' v' ∧ req'.objType = t ∧ req'.key = k ∧ req'.content = none ∧ v < v'

/-- What holds in every state of a run; `base` is the counter at its start. -/
structure Inv (base : ℤ) (x : World V) : Prop where
  /-- the counter only grows -/
  past : base ≤ x.channelRev
  /-- objects are stored under their key -/
  keyed : ∀ (t : String) (cs : CacheStore V), x.map[t]? = some cs → Keyed cs.cacheStore
  /-- the revisions of the requests lie between the start and now -/
  bounds : ∀ (i : ℕ) t v, x.threads[i]? = some t → t.version? = some v → base < v ∧ v ≤ x.channelRev
  /-- no two requests have the same revision -/
  distinct : ∀ (i j : ℕ) t u v, x.threads[i]? = some t → x.threads[j]? = some u →
    t.version? = some v → u.version? = some v → i = j
  /-- what a delete has read is the object it is about -/
  found : ∀ (i : ℕ) req v obj, x.threads[i]? = some (.found req v obj) →
    obj.key = req.key ∧ req.content = none
  /-- every key is settled -/
  settled : ∀ t k, Settled base x t k

variable {base : ℤ} {x y : World V} {i : ℕ} {old t : Thread V} {req : Request V} {v : ℤ}

/-- Which requests are done after a thread has changed. -/
theorem done_setThread (hold : x.threads[i]? = some old) (hopen : ∀ r v rev, old ≠ .answered r v "" rev) :
    (x.setThread i t).Done req v ↔ x.Done req v ∨ ∃ rev, t = .answered req v "" rev := by
  have hlt : i < x.threads.length := (List.getElem?_eq_some_iff.mp hold).1
  constructor
  · rintro ⟨j, rev, hj⟩
    rw [setThread, List.getElem?_set] at hj
    split at hj
    next =>
      exact Or.inr ⟨rev, Option.some.inj hj⟩
    next => exact Or.inl ⟨j, rev, hj⟩
  · rintro (⟨j, rev, hj⟩ | ⟨rev, rfl⟩)
    · have hne : i ≠ j := by
        rintro rfl
        exact hopen req v rev (Option.some.inj (hold.symm.trans hj))
      exact ⟨j, rev, by rw [setThread, List.getElem?_set, if_neg hne, hj]⟩
    · exact ⟨i, rev, by rw [setThread, List.getElem?_set, if_pos rfl, if_pos hlt]⟩

/-- A settled key stays settled when neither it nor what is done changes. -/
theorem Settled.congr {a k : String} (h : Settled base x a k) (hget : y.get a k = x.get a k)
    (hdone : ∀ r v, r.objType = a → r.key = k → (y.Done r v ↔ x.Done r v)) : Settled base y a k := by
  unfold Settled at h ⊢
  rw [hget]
  rcases hx : x.get a k with _ | o
  · rw [hx] at h
    intro r v obj hr ha hk hobj
    obtain ⟨r', v', hr', ha', hk', hnone, hlt⟩ := h r v obj ((hdone r v ha hk).mp hr) ha hk hobj
    exact ⟨r', v', (hdone r' v' ha' hk').mpr hr', ha', hk', hnone, hlt⟩
  · rw [hx] at h
    refine ⟨fun r v hr ha hk => h.1 r v ((hdone r v ha hk).mp hr) ha hk, ?_⟩
    rcases h.2 with hbase | ⟨r, obj, c, hr, ha, hk, hobj, ho⟩
    · exact Or.inl hbase
    · exact Or.inr ⟨r, obj, c, (hdone r _ ha hk).mpr hr, ha, hk, hobj, ho⟩

namespace Inv

theorem start (h : Start x) : Inv x.channelRev x where
  past := Int.le_refl _
  keyed := h.keyed
  bounds := by
    intro i t v hi
    rw [h.threads] at hi
    cases hi
  distinct := by
    intro i j t u v hi
    rw [h.threads] at hi
    cases hi
  found := by
    intro i req v obj hi
    rw [h.threads] at hi
    cases hi
  settled := by
    have hnone : ∀ req v, ¬ x.Done req v := by
      rintro req v ⟨i, rev, hi⟩
      rw [h.threads] at hi
      cases hi
    intro t k
    unfold Settled
    rcases hx : x.get t k with _ | o
    · exact fun req v obj hd => absurd hd (hnone req v)
    · exact ⟨fun req v hd => absurd hd (hnone req v), Or.inl (h.past t k o hx)⟩

/-- A request arrives. -/
theorem arrive (h : Inv base x) (req : Request V) :
    Inv base { x with threads := x.threads ++ [.arrived req] } := by
  have hget : ∀ (j : ℕ) t, (x.threads ++ [.arrived req])[j]? = some t →
      x.threads[j]? = some t ∨ t = .arrived req := by
    intro j t hj
    rw [List.getElem?_append] at hj
    split at hj
    next => exact Or.inl hj
    next => exact Or.inr (by simpa using List.mem_of_getElem? hj)
  refine ⟨h.past, h.keyed, fun j t v hj hv => ?_, fun j j' t u v hj hj' hv hu => ?_, fun j r v obj hj => ?_,
    fun a k => ?_⟩
  · rcases hget j t hj with hj | rfl
    · exact h.bounds j t v hj hv
    · cases hv
  · rcases hget j t hj with hj | rfl
    · rcases hget j' u hj' with hj' | rfl
      · exact h.distinct j j' t u v hj hj' hv hu
      · cases hu
    · cases hv
  · rcases hget j _ hj with hj | hj
    · exact h.found j r v obj hj
    · cases hj
  · refine (h.settled a k).congr rfl fun r v _ _ => ⟨?_, ?_⟩
    · rintro ⟨j, rev, hj⟩
      rcases hget j _ hj with hj | hj
      · exact ⟨j, rev, hj⟩
      · cases hj
    · rintro ⟨j, rev, hj⟩
      have hlt : j < x.threads.length := (List.getElem?_eq_some_iff.mp hj).1
      exact ⟨j, rev, by rw [List.getElem?_append_left hlt, hj]⟩

/-- A thread changes; the keys are settled on their own. -/
theorem thread (h : Inv base x) (hold : x.threads[i]? = some old)
    (hthreads : y.threads = x.threads.set i t) (hrev : x.channelRev ≤ y.channelRev)
    (hkeyed : ∀ (a : String) (cs : CacheStore V), y.map[a]? = some cs → Keyed cs.cacheStore)
    (hver : ∀ v, t.version? = some v →
      old.version? = some v ∨ x.channelRev < v ∧ v ≤ y.channelRev)
    (hfound : ∀ r v obj, t = .found r v obj → obj.key = r.key ∧ r.content = none)
    (hsettled : ∀ a k, Settled base y a k) : Inv base y := by
  have hbase := h.past
  have hget : ∀ (j : ℕ) u, y.threads[j]? = some u → j = i ∧ u = t ∨ j ≠ i ∧ x.threads[j]? = some u := by
    intro j u hj
    rw [hthreads, List.getElem?_set] at hj
    split at hj
    next heq =>
      split at hj
      next => exact Or.inl ⟨heq.symm, (Option.some.inj hj).symm⟩
      next => cases hj
    next hne => exact Or.inr ⟨fun heq => hne heq.symm, hj⟩
  have hother : ∀ (j : ℕ) u v, j ≠ i → x.threads[j]? = some u → t.version? = some v →
      u.version? ≠ some v := by
    intro j u v hne hj ht hu
    rcases hver v ht with hv | ⟨hlt, -⟩
    · exact hne (h.distinct j i u old v hj hold hu hv)
    · have hle := (h.bounds j u v hj hu).2
      omega
  refine ⟨by omega, hkeyed, fun j u v hj hv => ?_, fun j j' u u' v hj hj' hv hv' => ?_, fun j r v obj hj => ?_,
    hsettled⟩
  · rcases hget j u hj with ⟨rfl, rfl⟩ | ⟨-, hj⟩
    · rcases hver v hv with hv | ⟨hlt, hle⟩
      · obtain ⟨hb, hc⟩ := h.bounds j old v hold hv
        exact ⟨hb, by omega⟩
      · exact ⟨by omega, hle⟩
    · obtain ⟨hb, hc⟩ := h.bounds j u v hj hv
      exact ⟨hb, by omega⟩
  · rcases hget j u hj with ⟨rfl, rfl⟩ | ⟨hne, hj⟩
    · rcases hget j' u' hj' with ⟨rfl, -⟩ | ⟨hne', hj'⟩
      · rfl
      · exact absurd hv' (hother j' u' v hne' hj' hv)
    · rcases hget j' u' hj' with ⟨rfl, rfl⟩ | ⟨-, hj'⟩
      · exact absurd hv (hother j u v hne hj hv')
      · exact h.distinct j j' u u' v hj hj' hv hv'
  · rcases hget j _ hj with ⟨-, ht⟩ | ⟨-, hj⟩
    · exact hfound r v obj ht.symm
    · exact h.found j r v obj hj

/-- A thread changes and nothing else, and it is not done by that. -/
theorem waiting (h : Inv base x) (hold : x.threads[i]? = some old) (hopen : ∀ r v rev, old ≠ .answered r v "" rev)
    (hver : ∀ v, t.version? = some v → old.version? = some v) (hdone : ∀ r v rev, t ≠ .answered r v "" rev)
    (hfound : ∀ r v obj, t = .found r v obj → obj.key = r.key ∧ r.content = none) :
    Inv base (x.setThread i t) := by
  refine h.thread hold rfl (Int.le_refl _) h.keyed (fun v hv => Or.inl (hver v hv)) hfound
    (fun a k => ?_)
  refine (h.settled a k).congr rfl fun r v _ _ => ?_
  rw [done_setThread hold hopen]
  refine or_iff_left ?_
  rintro ⟨rev, ht⟩
  exact hdone r v rev ht

/-- A thread draws its revision. -/
theorem draw (h : Inv base x) (hold : x.threads[i]? = some (.arrived req)) :
    Inv base (x.drawn.setThread i (.revised req (x.channelRev + 1))) := by
  have hlt : x.channelRev < (x.drawn.setThread i (.revised req (x.channelRev + 1))).channelRev :=
    Int.lt_succ x.channelRev
  refine h.thread hold rfl (Int.le_of_lt hlt) h.keyed (fun v hv => Or.inr ?_)
    (fun r v obj ht => (nomatch ht)) (fun a k => ?_)
  · obtain rfl := Option.some.inj hv
    exact ⟨hlt, Int.le_refl _⟩
  · refine (h.settled a k).congr rfl fun r v _ _ => ?_
    rw [done_setThread (x := x.drawn) hold (fun _ _ _ ht => nomatch ht)]
    refine or_iff_left ?_
    rintro ⟨rev, ht⟩
    cases ht

end Inv

/-- The content of the keys after a cache store has processed an event. -/
theorem get_process {full : ℕ → Bool} {a k c : String} {cs : CacheStore V} {e : WatchEvent V} :
    (x.process full c cs e).get a k =
      if a = c then (cs.processEvent full (x.channelRev + 1) e).cacheStore[k]? else x.get a k := by
  unfold process get
  dsimp only
  rw [BTreeMap.get_insert]
  split
  next => rfl
  next => rfl

theorem get_of_map {a k : String} {cs : CacheStore V} (hcs : x.map[a]? = some cs) :
    x.get a k = cs.cacheStore[k]? := by
  unfold get
  rw [hcs, Option.bind_some]

/-- What a request does to the cache: an event about its key that leaves behind
what the request wrote. -/
structure Writes (req : Request V) (v : ℤ) (e : WatchEvent V) : Prop where
  /-- it is about the key -/
  key : e.obj.key = req.key
  /-- under the revision of the request -/
  revision : e.obj.revision = v
  /-- a delete leaves nothing -/
  deleted : req.content = none → e.type = .deleted
  /-- a create or update leaves its object -/
  written : ∀ obj, req.content = some obj → e.type ≠ .deleted ∧ e.obj = { obj with revision := v }

theorem Writes.left_none {e : WatchEvent V} {c : ℤ} (h : Writes req v e) (hnone : req.content = none) :
    CacheStore.left c e = none := by
  unfold CacheStore.left
  rw [if_pos (h.deleted hnone)]

theorem Writes.left_some {e : WatchEvent V} {c : ℤ} {obj : DataObject V} (h : Writes req v e)
    (hobj : req.content = some obj) : CacheStore.left c e = some (obj.copyWithRev c v) := by
  obtain ⟨htype, he⟩ := h.written obj hobj
  unfold CacheStore.left
  rw [if_neg htype, he]
  rfl

section Apply

variable {full : ℕ → Bool} {cs : CacheStore V} {e : WatchEvent V} {rev : ℤ}

/-- The state after a request has been applied and answered. -/
def applied (full : ℕ → Bool) (x : World V) (i : ℕ) (req : Request V) (v : ℤ) (cs : CacheStore V)
    (e : WatchEvent V) (rev : ℤ) : World V :=
  (x.process full req.objType cs e).setThread i (.answered req v "" rev)

theorem done_applied {r : Request V} {u : ℤ} (hold : x.threads[i]? = some old)
    (hopen : ∀ r v rev, old ≠ .answered r v "" rev) :
    (x.applied full i req v cs e rev).Done r u ↔ x.Done r u ∨ r = req ∧ u = v := by
  unfold applied
  rw [done_setThread (x := x.process full req.objType cs e) hold hopen]
  refine or_congr_right ⟨?_, ?_⟩
  · rintro ⟨rev', ht⟩
    obtain ⟨rfl, rfl, -, -⟩ := Thread.answered.inj ht
    exact ⟨rfl, rfl⟩
  · rintro ⟨rfl, rfl⟩
    exact ⟨rev, rfl⟩

/-- The event of the request applies: all other requests on the key are older. -/
theorem settled_newer (hold : x.threads[i]? = some old) (hopen : ∀ r v rev, old ≠ .answered r v "" rev)
    (hw : Writes req v e) (hget : (x.applied full i req v cs e rev).get req.objType req.key =
      CacheStore.left (x.channelRev + 1) e)
    (hnewer : ∀ r u, x.Done r u → r.objType = req.objType → r.key = req.key → u < v) :
    Settled base (x.applied full i req v cs e rev) req.objType req.key := by
  unfold Settled
  rw [hget]
  rcases hcontent : req.content with _ | obj
  · rw [hw.left_none hcontent]
    intro r u obj hr ha hk hobj
    rcases (done_applied hold hopen).mp hr with hr | ⟨rfl, rfl⟩
    · exact ⟨req, v, (done_applied hold hopen).mpr (Or.inr ⟨rfl, rfl⟩), rfl, rfl, hcontent,
        hnewer r u hr ha hk⟩
    · rw [hcontent] at hobj
      cases hobj
  · rw [hw.left_some hcontent]
    refine ⟨fun r u hr ha hk => ?_, Or.inr ⟨req, obj, x.channelRev + 1, ?_, rfl, rfl, hcontent, rfl⟩⟩
    · rcases (done_applied hold hopen).mp hr with hr | ⟨rfl, rfl⟩
      · exact Int.le_of_lt (hnewer r u hr ha hk)
      · exact Int.le_refl _
    · exact (done_applied hold hopen).mpr (Or.inr ⟨rfl, rfl⟩)

/-- **One write.** A request is applied and answered: its key stays settled, if
no newer delete has emptied the key before a create or update. -/
theorem settled_applied (h : Settled base x req.objType req.key) (hold : x.threads[i]? = some old)
    (hopen : ∀ r v rev, old ≠ .answered r v "" rev) (hw : Writes req v e)
    (hcs : x.map[req.objType]? = some cs) (hbase : base < v)
    (hok : ∀ obj, req.content = some obj → x.get req.objType req.key = none →
      ∀ r u, x.Done r u → r.SameKey req → r.content = none → u < v) :
    Settled base (x.applied full i req v cs e rev) req.objType req.key := by
  have hgetx : x.get req.objType req.key = cs.cacheStore[e.obj.key]? := by
    rw [get_of_map hcs, hw.key]
  have hgety : (x.applied full i req v cs e rev).get req.objType req.key =
      (cs.processEvent full (x.channelRev + 1) e).cacheStore[e.obj.key]? := by
    rw [hw.key]
    exact Eq.trans get_process (if_pos rfl)
  unfold Settled at h
  rcases hx : x.get req.objType req.key with _ | o
  · rw [hx] at h
    rw [hx] at hgetx
    have hleft := hgety.trans (CacheStore.processEvent_absent hgetx.symm)
    rcases hcontent : req.content with _ | obj
    · -- a delete of a key that is gone: nothing changes
      unfold Settled
      rw [hleft, hw.left_none hcontent]
      intro r u obj hr ha hk hobj
      rcases (done_applied hold hopen).mp hr with hr | ⟨rfl, rfl⟩
      · obtain ⟨r', u', hr', ha', hk', hnone, hlt⟩ := h r u obj hr ha hk hobj
        exact ⟨r', u', (done_applied hold hopen).mpr (Or.inl hr'), ha', hk', hnone, hlt⟩
      · rw [hcontent] at hobj
        cases hobj
    · refine settled_newer hold hopen hw hleft fun r u hr ha hk => ?_
      rcases hr' : r.content with _ | obj'
      · exact hok obj hcontent hx r u hr ⟨ha, hk⟩ hr'
      · obtain ⟨r', u', hr', ha', hk', hnone, hlt⟩ := h r u obj' hr ha hk hr'
        have hlt' := hok obj hcontent hx r' u' hr' ⟨ha', hk'⟩ hnone
        omega
  · rw [hx] at h
    rw [hx] at hgetx
    by_cases hrev : v ≤ o.revision
    · -- the object there is newer, so the event is dropped
      have hsame : (x.applied full i req v cs e rev).get req.objType req.key = some o := by
        rw [hgety, CacheStore.processEvent_stale hgetx.symm (by rw [hw.revision]; exact hrev)]
        exact hgetx.symm
      unfold Settled
      rw [hsame]
      refine ⟨fun r u hr ha hk => ?_, ?_⟩
      · rcases (done_applied hold hopen).mp hr with hr | ⟨rfl, rfl⟩
        · exact h.1 r u hr ha hk
        · exact hrev
      · rcases h.2 with hle | ⟨r, obj, c, hr, ha, hk, hobj, ho⟩
        · exact Or.inl hle
        · exact Or.inr ⟨r, obj, c, (done_applied hold hopen).mpr (Or.inl hr), ha, hk, hobj, ho⟩
    · have hlt : o.revision < e.obj.revision := by
        rw [hw.revision]
        omega
      refine settled_newer hold hopen hw
        (hgety.trans (CacheStore.processEvent_newer hgetx.symm hlt)) fun r u hr ha hk => ?_
      have hle := h.1 r u hr ha hk
      omega

theorem Inv.applied (h : Inv base x) (hold : x.threads[i]? = some old)
    (hopen : ∀ r v rev, old ≠ .answered r v "" rev) (hver : old.version? = some v) (hw : Writes req v e)
    (hcs : x.map[req.objType]? = some cs)
    (hok : ∀ obj, req.content = some obj → x.get req.objType req.key = none →
      ∀ r u, x.Done r u → r.SameKey req → r.content = none → u < v) :
    Inv base (x.applied full i req v cs e rev) := by
  refine h.thread hold rfl (Int.le_of_lt (Int.lt_succ x.channelRev)) (fun a cs' ha => ?_)
    (fun u hu => Or.inl ?_) (fun r u obj ht => (nomatch ht)) fun a k => ?_
  · replace ha : (x.map.insert req.objType _)[a]? = some cs' := ha
    rw [BTreeMap.get_insert] at ha
    split at ha
    next =>
      obtain rfl := Option.some.inj ha
      exact CacheStore.keyed_processEvent (h.keyed _ cs hcs)
    next => exact h.keyed a cs' ha
  · obtain rfl := Option.some.inj hu
    exact hver
  · by_cases hak : a = req.objType ∧ k = req.key
    · obtain ⟨rfl, rfl⟩ := hak
      exact settled_applied (h.settled _ _) hold hopen hw hcs (h.bounds i old v hold hver).1 hok
    · refine (h.settled a k).congr ?_ fun r u ha hk => ?_
      · refine Eq.trans get_process ?_
        split
        next ha =>
          have hk : k ≠ e.obj.key := fun hk => hak ⟨ha, hk.trans hw.key⟩
          rw [CacheStore.processEvent_of_ne hk, ha, get_of_map hcs]
        next => rfl
      · rw [done_applied hold hopen]
        refine or_iff_left ?_
        rintro ⟨rfl, -⟩
        exact hak ⟨ha.symm, hk.symm⟩

end Apply

/-- A text that starts with a letter is not empty. -/
theorem append_ne_empty {a b : String} (h : a ≠ "") : a ++ b ≠ "" := by
  intro hab
  exact h (String.append_eq_empty_iff.mp hab).1

theorem Inv.write (h : Inv base x) {full : ℕ → Bool} {type : EventType} {obj : DataObject V}
    (hold : x.threads[i]? = some (.revised req v)) (hreq : req = .create obj ∨ req = .update obj)
    (htype : type ≠ .deleted)
    (hok : ∀ obj, req.content = some obj → x.get req.objType req.key = none →
      ∀ r u, x.Done r u → r.SameKey req → r.content = none → u < v) :
    Inv base (x.write full i req v type obj) := by
  have hwrites : Writes req v ⟨type, { obj with revision := v }⟩ := by
    rcases hreq with rfl | rfl
    · exact ⟨rfl, rfl, fun hnone => (nomatch hnone), fun _ hobj => ⟨htype, Option.some.inj hobj ▸ rfl⟩⟩
    · exact ⟨rfl, rfl, fun hnone => (nomatch hnone), fun _ hobj => ⟨htype, Option.some.inj hobj ▸ rfl⟩⟩
  have hobjType : obj.objType = req.objType := by
    rcases hreq with rfl | rfl
    · rfl
    · rfl
  unfold World.write
  split
  next =>
    refine h.waiting hold (fun _ _ _ ht => nomatch ht) (fun u hu => hu) (fun r u rev ht => ?_)
      fun _ _ _ ht => nomatch ht
    obtain ⟨-, -, herr, -⟩ := Thread.answered.inj ht
    exact append_ne_empty (by decide) herr
  next cs hcs =>
    have happlied : ∀ rev, Inv base (x.applied full i req v cs ⟨type, { obj with revision := v }⟩ rev) :=
      fun rev => h.applied hold (fun _ _ _ ht => nomatch ht) rfl hwrites (hobjType ▸ hcs) hok
    unfold World.applied at happlied
    rw [← hobjType] at happlied
    exact happlied _

/-- What a delete reads is stored under the key it asks for. -/
theorem read_key {env : Env V} {cs : CacheStore V} {k : String} {n : ℤ} {obj : DataObject V}
    (hcs : Keyed cs.cacheStore) (h : read env cs k n = .ok (some obj)) : obj.key = k := by
  unfold read at h
  split at h
  next => exact env.backend_key k obj (Except.ok.inj h)
  next =>
    split at h
    next => cases h
    next => exact hcs k obj (Except.ok.inj h)

/-- **One step.** A step keeps the invariant, unless an older write overtakes a
delete. -/
theorem Inv.next (h : Inv base x) {c : Input V} (hok : x.NotOvertaken c) (hnext : x.next c = some y) :
    Inv base y := by
  cases c with
  | arrive req =>
    obtain rfl := Option.some.inj hnext
    exact h.arrive req
  | step i env =>
    obtain ⟨old, hold, rfl⟩ := Option.map_eq_some_iff.mp hnext
    unfold advance
    cases old with
    | arrived req =>
      cases req with
      | create obj => exact h.draw hold
      | update obj => exact h.draw hold
      | delete objType tenant nameSpace name expectRev =>
        dsimp only
        split
        next =>
          exact h.waiting hold (fun _ _ _ ht => nomatch ht) (fun _ hu => nomatch hu)
            (fun _ _ _ ht => nomatch ht) fun _ _ _ ht => nomatch ht
        next => exact h.draw hold
    | revised req version =>
      have hok' := fun obj => hok req version obj hold
      cases req with
      | create obj => exact h.write hold (Or.inl rfl) nofun hok'
      | update obj => exact h.write hold (Or.inr rfl) nofun hok'
      | delete objType tenant nameSpace name expectRev =>
        dsimp only
        split
        next => exact h
        next cs hcs =>
          split
          next e he =>
            refine h.waiting hold (fun _ _ _ ht => nomatch ht) (fun u hu => hu) (fun r u rev ht => ?_)
              fun _ _ _ ht => nomatch ht
            obtain ⟨-, -, rfl, -⟩ := Thread.answered.inj ht
            unfold read at he
            split at he
            next => cases he
            next =>
              split at he
              next => exact absurd (Except.error.inj he) (by decide)
              next => cases he
          next =>
            refine h.waiting hold (fun _ _ _ ht => nomatch ht) (fun u hu => hu) (fun r u rev ht => ?_)
              fun _ _ _ ht => nomatch ht
            obtain ⟨-, -, herr, -⟩ := Thread.answered.inj ht
            exact append_ne_empty (append_ne_empty (append_ne_empty (append_ne_empty (by decide)))) herr
          next obj hread =>
            refine h.waiting hold (fun _ _ _ ht => nomatch ht) (fun u hu => hu)
              (fun _ _ _ ht => nomatch ht) fun r u obj' ht => ?_
            obtain ⟨rfl, -, rfl⟩ := Thread.found.inj ht
            exact ⟨read_key (h.keyed _ cs hcs) hread, rfl⟩
    | found req version obj =>
      obtain ⟨hkey, hnone⟩ := h.found i req version obj hold
      dsimp only
      split
      next => exact h
      next cs hcs =>
        refine h.applied hold (fun _ _ _ ht => nomatch ht) rfl
          ⟨hkey, rfl, fun _ => rfl, fun obj' hobj' => ?_⟩ hcs fun obj' hobj' => ?_
        · rw [hnone] at hobj'
          cases hobj'
        · rw [hnone] at hobj'
          cases hobj'
    | answered req version error revision => exact h
    | refused req error => exact h

theorem Inv.inOrder (h : Inv base x) : x.InOrder := by
  intro req v hdone hlatest
  have hsettled := h.settled req.objType req.key
  unfold Settled at hsettled
  unfold Holds
  rcases hx : x.get req.objType req.key with _ | o
  · rw [hx] at hsettled
    rcases hcontent : req.content with _ | obj
    · rfl
    · obtain ⟨req', v', hdone', hkind, hkey, -, hlt⟩ := hsettled req v obj hdone rfl rfl hcontent
      have hle := hlatest req' v' hdone' ⟨hkind, hkey⟩
      omega
  · rw [hx] at hsettled
    obtain ⟨hmax, hwritten⟩ := hsettled
    have hle := hmax req v hdone rfl rfl
    obtain ⟨i, rev, hi⟩ := hdone
    have hbase := (h.bounds i _ v hi rfl).1
    rcases hwritten with hold | ⟨req', obj, c, ⟨j, rev', hj⟩, hkind, hkey, hcontent, ho⟩
    · omega
    · have hge := hlatest req' o.revision ⟨j, rev', hj⟩ ⟨hkind, hkey⟩
      obtain rfl : v = o.revision := by omega
      obtain rfl := h.distinct i j _ _ _ hi hj rfl rfl
      obtain ⟨rfl, -, -, -⟩ := Thread.answered.inj (Option.some.inj (hi.symm.trans hj))
      rw [hcontent]
      exact ⟨c, congrArg some ho⟩

/-- **Writes take effect in revision order.** In every run in which no create or
update is applied after a newer delete has emptied its key, each key's content
is that of the request with the highest revision. -/
theorem inOrder_of_reach (h : Reach next Start NotOvertaken x) : x.InOrder := by
  have hinv : ∃ base, Inv base x := by
    refine h.invariant (I := fun x => ∃ base, Inv base x) (fun x hx => ⟨_, Inv.start hx⟩) ?_
    rintro x c y ⟨base, hx⟩ hok hnext
    exact ⟨base, hx.next hok hnext⟩
  obtain ⟨base, hbase⟩ := hinv
  exact hbase.inOrder

end World

/-! ## Two runs -/

namespace Sample

/-- An object with a payload. -/
def pod (n : ℕ) : DataObject ℕ where
  objType := "pod"
  tenant := "t"
  nameSpace := "n"
  name := "a"
  object := n

/-- A directory with one empty cache store. -/
def dir : World ℕ where
  map := (∅ : BTreeMap String (CacheStore ℕ)).insert "pod" { objectType := "pod" }

/-- A request takes a step. -/
def step (i : ℕ) : World.Input ℕ := .step i {}

/-- The state after some steps. -/
def after (l : List (World.Input ℕ)) : World ℕ :=
  (exec World.next (fun _ _ => True) dir l).getD dir

/-- An object is created. -/
def created : List (World.Input ℕ) := [.arrive (.create (pod 1)), step 0, step 0]

/-- An update draws its revision, a delete overtakes it. -/
def overtaken : List (World.Input ℕ) :=
  created ++ [.arrive (.update (pod 2)), step 1, .arrive (.delete "pod" "t" "n" "a" 0), step 2, step 2,
    step 2, step 1]

/-- After a create, a delete reads its object, a create draws a revision, and both take effect. -/
def recreated : List (World.Input ℕ) :=
  created ++ [.arrive (.delete "pod" "t" "n" "a" 0), .arrive (.create (pod 2)), step 1, step 1, step 2,
    step 1, step 2]

/-- What is done has a lower revision than the request that takes a step. -/
def Behind (x : World ℕ) : World.Input ℕ → Prop
  | .step i _ => ∀ t ∈ x.threads, t.isDone = true → ∀ v ∈ t.version?, ∀ t' ∈ x.threads[i]?,
    ∀ v' ∈ t'.version?, v < v'
  | .arrive _ => True

instance (x : World ℕ) : (c : World.Input ℕ) → Decidable (Behind x c)
  | .step i _ => inferInstanceAs (Decidable (∀ t ∈ x.threads, t.isDone = true → ∀ v ∈ t.version?,
    ∀ t' ∈ x.threads[i]?, ∀ v' ∈ t'.version?, v < v'))
  | .arrive _ => .isTrue trivial

theorem start_dir : World.Start dir := by
  have hempty : ∀ (t : String) (cs : CacheStore ℕ), dir.map[t]? = some cs → cs.cacheStore = ∅ := by
    intro t cs h
    unfold dir at h
    rw [BTreeMap.get_insert] at h
    split at h
    next => exact Option.some.inj h ▸ rfl
    next => simp at h
  refine ⟨fun t cs h => ?_, fun t k o h => ?_, rfl⟩
  · rw [hempty t cs h]
    exact Keyed.empty
  · obtain ⟨cs, hcs, ho⟩ := Option.bind_eq_some_iff.mp h
    rw [hempty t cs hcs, Std.ExtTreeMap.getElem?_empty] at ho
    cases ho

end Sample

/-- A delete and a create of one object overlap, and the create drew its revision later. -/
theorem World.inOrder_after_create :
    (exec World.next Sample.Behind Sample.dir Sample.recreated).any (fun x =>
      x.threads.map Thread.isDone == [true, true, true] && (x.get "pod" "t/n/a").isSome) = true ∧
    ∀ x ∈ exec World.next Sample.Behind Sample.dir Sample.recreated, x.InOrder := by
  refine ⟨by decide +kernel, fun x hx => World.inOrder_of_reach
    ((Reach.of_exec _ _ (.init Sample.start_dir) hx).mono fun x c hc => ?_)⟩
  cases c with
  | arrive => trivial
  | step i env =>
    rintro req version obj hi - - req' version' ⟨j, rev, hj⟩ - -
    exact hc _ (List.mem_of_getElem? hj) rfl version' rfl _ hi version rfl

/-- An update that is older than a delete but applied after it brings the object
back. -/
theorem World.update_after_delete : ¬ ∀ x : World ℕ, Reach World.next World.Start (fun _ _ => True) x →
    x.AllDone → x.InOrder := by
  intro h
  have hreach : Reach World.next World.Start (fun _ _ => True) (Sample.after Sample.overtaken) := by
    have hsome : (exec World.next (fun _ _ => True) Sample.dir Sample.overtaken).isSome = true := by
      decide +kernel
    obtain ⟨y, hy⟩ := Option.isSome_iff_exists.mp hsome
    have hafter : Sample.after Sample.overtaken = y := by
      unfold Sample.after
      rw [hy, Option.getD_some]
    exact hafter ▸ Reach.of_exec World.next _ (.init Sample.start_dir) hy
  have hdone : (Sample.after Sample.overtaken).AllDone := by
    show ∀ t ∈ (Sample.after Sample.overtaken).threads, t.isDone = true
    decide +kernel
  have hholds := h _ hreach hdone (.delete "pod" "t" "n" "a" 0) 4 ⟨2, 6, by decide +kernel⟩ ?_
  · have hsome : ((Sample.after Sample.overtaken).get "pod" "t/n/a").isSome = true := by
      decide +kernel
    replace hholds : (Sample.after Sample.overtaken).get "pod" "t/n/a" = none := hholds
    rw [hholds] at hsome
    cases hsome
  · rintro req version ⟨j, rev, hj⟩ -
    have hall : ∀ t ∈ (Sample.after Sample.overtaken).threads, ∀ v ∈ t.version?, v ≤ 4 := by
      decide +kernel
    exact hall _ (List.mem_of_getElem? hj) version rfl

end Inferx.Metastore
