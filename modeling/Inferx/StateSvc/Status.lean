import Inferx.Lib.Parties
import Inferx.StateSvc.Limits

/-!
# A function and its status

A request on a function writes the function and then its status. Between the two
writes another request on the same name may run, and the second write may fail. Then
the request is answered with an error although the function has changed, and the
status is left behind.

Requests are taken apart into their operations on etcd here, each of which may fail.
The managers may lag behind etcd, so the check of a request sees some store or other.
A function keeps its status if its requests are not between their two writes at the
same time, the answers to their first writes are not lost and the operations on the
status do not fail.
-/

namespace Inferx.StateSvc

open Metastore Proc

variable {V : Type}

/-! ## Requests, step by step -/

/-- The type that a request is about. -/
def Request.objType : Request V → String
  | .create obj => obj.objType
  | .update _ obj => obj.objType
  | .delete objType _ _ _ _ => objType

/-- The key that a request is about. -/
def Request.key : Request V → String
  | .create obj => obj.key
  | .update _ obj => obj.key
  | .delete _ tenant nameSpace name _ => objKey tenant nameSpace name

/-- How far a request is. -/
inductive Stage where
  /-- it is to be checked -/
  | admission
  /-- it is to write the function -/
  | store
  /-- it is to write the status, or to read it before, with so many attempts left -/
  | status (left : ℕ)
  /-- it is to write the status over a revision -/
  | statusPut (left : ℕ) (expectedRev : ℤ)
  deriving DecidableEq

/-- Has the function been written? -/
def Stage.wrote : Stage → Bool
  | .admission => false
  | .store => false
  | .status _ => true
  | .statusPut _ _ => true

/-- A request in progress. -/
structure Task (V : Type) where
  /-- the request -/
  req : Request V
  /-- how far it is -/
  stage : Stage

/-- An answer. -/
structure Answer (V : Type) where
  /-- the request -/
  req : Request V
  /-- its error, if it has one -/
  error : Option Error
  /-- has the request written anything, before its last step or in it? -/
  wrote : Bool

/-- What comes of a step. -/
inductive Progress (V : Type) where
  /-- the request goes on -/
  | goes (s : Etcd V) (stage : Stage)
  /-- the request is answered -/
  | answered (s : Etcd V) (error : Option Error)
  /-- the request panics -/
  | died

/-- What a step takes from outside: what the managers hold, what the cache store holds
and whether the wait for a revision ends in time, and how the operation on etcd fails,
if it does. -/
structure StepEnv (V : Type) where
  /-- what the managers hold; a deletion at revision -1 reads it from etcd -/
  seen : Etcd V := {}
  /-- the cache store has reached the revision a deletion names -/
  revReached : Bool := true
  /-- `cacheStore`: the objects in memory, by store key -/
  cached : String → Bool := fun _ => true
  /-- the failure of the operation -/
  fails : Option Failure := none

/-- The operation is answered: if it fails, it has not been applied. -/
def StepEnv.Told (env : StepEnv V) : Prop := ∀ e, env.fails ≠ some (.lost e)

/-- The request goes on after an operation, or is answered with its error. -/
def Progress.first (stage : Stage) : Outcome Error SvcPanic (Etcd V) Unit → Progress V
  | .ok _ s => .goes s stage
  | .err e s => .answered s (some e)
  | .panic _ => .died

/-- The request is answered after an operation. -/
def Progress.last : Outcome Error SvcPanic (Etcd V) Unit → Progress V
  | .ok _ s => .answered s none
  | .err e s => .answered s (some e)
  | .panic _ => .died

/-- The check before the first write. -/
def Request.admission (codec : Codec V) (env : StepEnv V) : Request V → Except Error Unit
  | .create obj => env.seen.createObjCheck codec obj
  | .update _ obj => env.seen.updateObjCheck codec obj
  | .delete objType tenant nameSpace name expectRev => do
    let key := storeKey objType (objKey tenant nameSpace name)
    let found ← cacherGet { revReached := env.revReached, cached := env.cached } env.seen
      objType tenant nameSpace name expectRev
    if found then .ok () else .error (.commonError s!"delete object {key} Fail not exist")

/-- The first write. -/
def Request.store (env : StepEnv V) : Request V → SvcM V Unit
  | .create obj => storeCreate env.fails obj
  | .update expectRev obj => storeUpdate env.fails expectRev obj
  | .delete objType tenant nameSpace name expectRev =>
    storeDelete env.fails (storeKey objType (objKey tenant nameSpace name)) expectRev

/-- The attempts a request has to write the status. -/
def Request.attempts : Request V → ℕ
  | .update _ _ => 3
  | _ => 1

/-- The next operation on the status: `CreateFuncStatus`, `DeleteFuncStatus`, or the
read of `UpdateFuncStatus`. -/
def Request.status (codec : Codec V) (env : StepEnv V) (s : Etcd V) (left : ℕ) : Request V → Progress V
  | .create obj =>
    match codec.func obj.object with
    | none => .answered s (some (.serdeJsonError ""))
    | some func => .last (storeCreate env.fails (initialStatus codec obj func) s)
  | .update _ obj =>
    match codec.func obj.object, env.fails with
    | none, _ => .answered s (some (.serdeJsonError ""))
    | some _, some (.refused e) => .answered s (some e)
    | some _, some (.lost e) => .answered s (some e)
    | some _, none =>
      .goes s (.statusPut left ((s.kvs[storeKey funcstatusKEY obj.key]?.map DataObject.revision).getD 0))
  | .delete _ tenant nameSpace name _ =>
    .last (storeDelete env.fails (storeKey funcstatusKEY (objKey tenant nameSpace name)) 0 s)

/-- The write of `UpdateFuncStatus`. A conflict is tried again. -/
def Request.statusPut (codec : Codec V) (env : StepEnv V) (s : Etcd V) (left : ℕ) (expectedRev : ℤ) :
    Request V → Progress V
  | .update _ obj =>
    match codec.func obj.object with
    | none => .answered s (some (.serdeJsonError ""))
    | some func =>
      match storeUpdate env.fails expectedRev (initialStatus codec obj func) s with
      | .ok _ s' => .answered s' none
      | .err (.updateRevNotMatchErr e a) s' =>
        if left ≤ 1 then .answered s' (some (.updateRevNotMatchErr e a)) else .goes s' (.status (left - 1))
      | .err e s' => .answered s' (some e)
      | .panic _ => .died
  | _ => .answered s none

/-- One step of a request. -/
def Task.step (codec : Codec V) (env : StepEnv V) (s : Etcd V) (t : Task V) : Progress V :=
  match t.stage with
  | .admission =>
    match t.req.admission codec env with
    | .ok () => .goes s .store
    | .error e => .answered s (some e)
  | .store => .first (.status t.req.attempts) (t.req.store env s)
  | .status left => t.req.status codec env s left
  | .statusPut left expectedRev => t.req.statusPut codec env s left expectedRev

/-- The service: etcd, the requests in progress and the answers so far. -/
structure Service (V : Type) where
  /-- etcd -/
  etcd : Etcd V := {}
  /-- the requests in progress -/
  tasks : List (Task V) := []
  /-- the answers -/
  answers : List (Answer V) := []

/-- What happens. -/
inductive Act (V : Type) where
  /-- a request on a function comes in -/
  | arrive (r : Request V)
  /-- a request makes its next step -/
  | step (i : ℕ) (env : StepEnv V)

/-- One step of the service. -/
def Service.next (codec : Codec V) (s : Service V) : Act V → Option (Service V)
  | .arrive r =>
    if r.objType = functionKEY then some { s with tasks := s.tasks ++ [⟨r, .admission⟩] } else none
  | .step i env =>
    match s.tasks[i]? with
    | none => none
    | some t =>
      match t.step codec env s.etcd with
      | .goes etcd stage => some { s with etcd, tasks := s.tasks.eraseIdx i ++ [⟨t.req, stage⟩] }
      | .answered etcd error => some
        { etcd
          tasks := s.tasks.eraseIdx i
          answers := s.answers ++ [⟨t.req, error, t.stage.wrote || etcd.revision != s.etcd.revision⟩] }
      | .died => some { s with tasks := s.tasks.eraseIdx i }

/-- A function and its status exist together, and the status is about the version of
the function. -/
def Matched (codec : Codec V) (s : Etcd V) (key : String) : Prop :=
  match s.kvs[storeKey functionKEY key]?, s.kvs[storeKey funcstatusKEY key]? with
  | none, none => True
  | some o, some o' => ∃ f st, codec.func o.object = some f ∧ o'.object = codec.ofStatus st ∧ st.version = f.version
  | _, _ => False

/-- An error means that nothing has been written, and functions match their statuses
when no request is in progress. -/
def Service.Together (codec : Codec V) (s : Service V) : Prop :=
  (∀ a ∈ s.answers, a.error ≠ none → a.wrote = false) ∧ (s.tasks = [] → ∀ key, Matched codec s.etcd key)

/-- A function is written only while no other request on it is between its two writes,
and the answer to that write is not lost; no operation on a status fails. -/
def ActOk (s : Service V) : Act V → Prop
  | .arrive _ => True
  | .step i env => ∀ t ∈ s.tasks[i]?,
    (t.stage = .store →
      env.Told ∧ ∀ t' ∈ s.tasks, t'.stage.wrote = true → t'.req.key ≠ t.req.key) ∧
      (t.stage.wrote = true → env.fails = none)

/-! ## Operations -/

variable {codec : Codec V} {s s' : Etcd V} {env : StepEnv V}

/-- What an operation of etcd does whose answer is not lost: it fails and changes nothing, or it
does what it is for. -/
theorem storeCreate_cases (htold : env.Told) (obj : DataObject V) (s : Etcd V) :
    (∃ e, storeCreate env.fails obj s = .err e s) ∨
      s.kvs[prepareKey (storeKey obj.objType obj.key)]? = none ∧
        storeCreate env.fails obj s = .ok () (s.put (prepareKey (storeKey obj.objType obj.key)) obj) := by
  rcases hfails : env.fails with _ | e | e
  · by_cases hin : s.kvs.contains (prepareKey (storeKey obj.objType obj.key)) = true
    · refine Or.inl ⟨.newKeyExistsErr (prepareKey (storeKey obj.objType obj.key)) 0, ?_⟩
      show (if s.kvs.contains (prepareKey (storeKey obj.objType obj.key)) = true then _ else _ : SvcM V Unit) s = _
      rw [if_pos hin]
      rfl
    · refine Or.inr ⟨by simpa using hin, ?_⟩
      show (if s.kvs.contains (prepareKey (storeKey obj.objType obj.key)) = true then _ else _ : SvcM V Unit) s = _
      rw [if_neg hin]
      rfl
  · exact Or.inl ⟨e, rfl⟩
  · exact absurd hfails (htold e)

theorem storeUpdate_cases (htold : env.Told) (expectedRev : ℤ) (obj : DataObject V) (s : Etcd V) :
    (∃ e, storeUpdate env.fails expectedRev obj s = .err e s) ∨
      storeUpdate env.fails expectedRev obj s = .ok () (s.put (prepareKey (storeKey obj.objType obj.key)) obj) := by
  rcases hfails : env.fails with _ | e | e
  · by_cases hrev : 0 < expectedRev ∧
        s.kvs[prepareKey (storeKey obj.objType obj.key)]?.map DataObject.revision ≠ some expectedRev
    · refine Or.inl ⟨.updateRevNotMatchErr expectedRev s.revision, ?_⟩
      show (if 0 < expectedRev ∧ _ then _ else _ : SvcM V Unit) s = _
      rw [if_pos hrev]
      rfl
    · refine Or.inr ?_
      show (if 0 < expectedRev ∧ _ then _ else _ : SvcM V Unit) s = _
      rw [if_neg hrev]
      rfl
  · exact Or.inl ⟨e, rfl⟩
  · exact absurd hfails (htold e)

theorem storeDelete_cases (htold : env.Told) (key : String) (expectedRev : ℤ) (s : Etcd V) :
    (∃ e, storeDelete env.fails key expectedRev s = .err e s) ∨ (∃ p, storeDelete env.fails key expectedRev s = .panic p) ∨
      storeDelete env.fails key expectedRev s = .ok () (s.del (prepareKey key)) := by
  rcases hfails : env.fails with _ | e | e
  · by_cases hrev : expectedRev = 0 ∨ s.kvs[prepareKey key]?.map DataObject.revision = some expectedRev
    · refine Or.inr (Or.inr ?_)
      show (if expectedRev = 0 ∨ _ then _ else _ : SvcM V Unit) s = _
      rw [if_pos hrev]
      rfl
    · rcases hget : s.kvs[prepareKey key]? with _ | o
      · refine Or.inr (Or.inl ⟨.deleteMissing, ?_⟩)
        show (if expectedRev = 0 ∨ _ then _ else _ : SvcM V Unit) s = _
        rw [if_neg hrev, hget]
        rfl
      · refine Or.inl ⟨.deleteRevNotMatchErr expectedRev o.revision, ?_⟩
        show (if expectedRev = 0 ∨ _ then _ else _ : SvcM V Unit) s = _
        rw [if_neg hrev, hget]
        rfl
  · exact Or.inl ⟨e, rfl⟩
  · exact absurd hfails (htold e)

theorem storeCreate_ok {obj : DataObject V} (h : s.kvs[prepareKey (storeKey obj.objType obj.key)]? = none) :
    storeCreate none obj s = .ok () (s.put (prepareKey (storeKey obj.objType obj.key)) obj) := by
  have hout : ¬ s.kvs.contains (prepareKey (storeKey obj.objType obj.key)) = true := by simpa using h
  show (if s.kvs.contains (prepareKey (storeKey obj.objType obj.key)) = true then _ else _ : SvcM V Unit) s = _
  rw [if_neg hout]
  rfl

/-- The revision that has just been read is the one that is there. -/
theorem storeUpdate_ok {obj : DataObject V} {expectedRev : ℤ}
    (h : expectedRev = (s.kvs[prepareKey (storeKey obj.objType obj.key)]?.map DataObject.revision).getD 0) :
    storeUpdate none expectedRev obj s = .ok () (s.put (prepareKey (storeKey obj.objType obj.key)) obj) := by
  have hrev : ¬ (0 < expectedRev ∧
      s.kvs[prepareKey (storeKey obj.objType obj.key)]?.map DataObject.revision ≠ some expectedRev) := by
    rintro ⟨hpos, hne⟩
    rcases hmap : s.kvs[prepareKey (storeKey obj.objType obj.key)]?.map DataObject.revision with _ | r
    · rw [hmap, Option.getD_none] at h
      omega
    · rw [hmap, Option.getD_some] at h
      exact hne (hmap.trans (congrArg some h.symm))
  show (if 0 < expectedRev ∧ _ then _ else _ : SvcM V Unit) s = _
  rw [if_neg hrev]
  rfl

theorem storeDelete_ok (key : String) (s : Etcd V) : storeDelete none key 0 s = .ok () (s.del (prepareKey key)) :=
  rfl

/-! ## One function and its status -/

/-- The function and the status of a name are the same. -/
def SameAt (s s' : Etcd V) (key : String) : Prop :=
  s'.kvs[storeKey functionKEY key]? = s.kvs[storeKey functionKEY key]? ∧
    s'.kvs[storeKey funcstatusKEY key]? = s.kvs[storeKey funcstatusKEY key]?

/-- All functions and statuses are the same, but for one name. -/
def OnlyAt (key : String) (s s' : Etcd V) : Prop := ∀ key', key' ≠ key → SameAt s s' key'

theorem OnlyAt.refl (key : String) (s : Etcd V) : OnlyAt key s s := fun _ _ => ⟨rfl, rfl⟩

theorem Matched.congr {key : String} (h : SameAt s s' key) (hs : Matched codec s key) : Matched codec s' key := by
  unfold Matched
  rw [h.1, h.2]
  exact hs

/-- The types that a request on a function writes. -/
def pairTypes : List String := [functionKEY, funcstatusKEY]

theorem prepareKey_pair {a : String} (h : a ∈ pairTypes) (key : String) :
    prepareKey (storeKey a key) = storeKey a key := by
  have hall : ∀ a ∈ pairTypes, '/' ∉ a.toList ∧ a ≠ "" := by decide
  exact prepareKey_storeKey (hall a h).1 (hall a h).2 key

theorem pair_ne {a b key key' : String} (ha : a ∈ pairTypes) (hb : b ∈ pairTypes) (hne : key' ≠ key) :
    storeKey b key' ≠ storeKey a key := by
  have hall : ∀ a ∈ pairTypes, '/' ∉ a.toList := by decide
  exact fun heq => hne (storeKey_inj (hall b hb) (hall a ha) heq).2

theorem status_ne_function (key : String) : storeKey funcstatusKEY key ≠ storeKey functionKEY key := fun heq =>
  absurd (storeKey_inj (by decide) (by decide) heq).1 (by decide)

theorem onlyAt_put {a : String} (ha : a ∈ pairTypes) (key : String) (obj : DataObject V) (s : Etcd V) :
    OnlyAt key s (s.put (storeKey a key) obj) := fun _ hne =>
  ⟨BTreeMap.get_insert_of_ne (pair_ne ha (by decide) hne), BTreeMap.get_insert_of_ne (pair_ne ha (by decide) hne)⟩

theorem onlyAt_del {a : String} (ha : a ∈ pairTypes) (key : String) (s : Etcd V) :
    OnlyAt key s (s.del (storeKey a key)) := fun _ hne =>
  ⟨BTreeMap.get_erase_of_ne (pair_ne ha (by decide) hne), BTreeMap.get_erase_of_ne (pair_ne ha (by decide) hne)⟩

/-! ## Between the two writes -/

/-- The request holds a function, if it holds anything. -/
def Request.Parsed (codec : Codec V) : Request V → Prop
  | .create obj => ∃ f, codec.func obj.object = some f
  | .update _ obj => ∃ f, codec.func obj.object = some f
  | .delete _ _ _ _ _ => True

/-- What a request has done that is between its two writes: the function is its own, or
is gone. A creation has found no status, and an update knows the revision of the status. -/
def Half (s : Etcd V) (t : Task V) : Prop :=
  match t.req with
  | .create obj => (s.kvs[storeKey functionKEY obj.key]?).map DataObject.object = some obj.object ∧
    s.kvs[storeKey funcstatusKEY obj.key]? = none ∧ ∃ left, t.stage = .status left
  | .update _ obj => (s.kvs[storeKey functionKEY obj.key]?).map DataObject.object = some obj.object ∧
    ∀ left expectedRev, t.stage = .statusPut left expectedRev →
      expectedRev = ((s.kvs[storeKey funcstatusKEY obj.key]?).map DataObject.revision).getD 0
  | .delete _ tenant nameSpace name _ => s.kvs[storeKey functionKEY (objKey tenant nameSpace name)]? = none ∧
    ∃ left, t.stage = .status left

theorem Half.congr {t : Task V} (h : SameAt s s' t.req.key) (hs : Half s t) : Half s' t := by
  obtain ⟨r, stage⟩ := t
  cases r with
  | create obj =>
    obtain ⟨hfunc, hstatus, hstage⟩ := hs
    exact ⟨(congrArg _ h.1).trans hfunc, h.2.trans hstatus, hstage⟩
  | update expectRev obj =>
    obtain ⟨hfunc, hrev⟩ := hs
    refine ⟨(congrArg _ h.1).trans hfunc, fun left expectedRev hstage => ?_⟩
    rw [show s'.kvs[storeKey funcstatusKEY obj.key]? = _ from h.2]
    exact hrev left expectedRev hstage
  | delete objType tenant nameSpace name expectRev =>
    exact ⟨h.1.trans hs.1, hs.2⟩

/-- The status is written for the function that is there. -/
theorem matched_put {obj : DataObject V} {f : FuncObject} (hf : codec.func obj.object = some f)
    (hfunc : (s.kvs[storeKey functionKEY obj.key]?).map DataObject.object = some obj.object) :
    Matched codec (s.put (storeKey funcstatusKEY obj.key) (initialStatus codec obj f)) obj.key := by
  obtain ⟨o, ho, hobject⟩ := Option.map_eq_some_iff.mp hfunc
  have hfuncAt : (s.put (storeKey funcstatusKEY obj.key) (initialStatus codec obj f)).kvs[
      storeKey functionKEY obj.key]? = some o :=
    (BTreeMap.get_insert_of_ne (status_ne_function obj.key).symm).trans ho
  have hstatusAt := BTreeMap.get_insert_self s.kvs (storeKey funcstatusKEY obj.key)
    { initialStatus codec obj f with channelRev := s.revision + 1, revision := s.revision + 1, srcEpoch := 0 }
  unfold Matched
  rw [hfuncAt]
  unfold Etcd.put
  dsimp only
  rw [hstatusAt]
  exact ⟨f, _, (congrArg codec.func hobject).trans hf, rfl, rfl⟩

theorem matched_del {key : String} (hfunc : s.kvs[storeKey functionKEY key]? = none) :
    Matched codec (s.del (storeKey funcstatusKEY key)) key := by
  have hfuncAt : (s.del (storeKey funcstatusKEY key)).kvs[storeKey functionKEY key]? = none :=
    (BTreeMap.get_erase_of_ne (status_ne_function key).symm).trans hfunc
  have hstatusAt : (s.del (storeKey funcstatusKEY key)).kvs[storeKey funcstatusKEY key]? = none := by
    unfold Etcd.del
    rw [BTreeMap.get_erase, if_pos rfl]
  unfold Matched
  rw [hfuncAt, hstatusAt]
  trivial

/-! ## One step -/

/-- What a step of a request comes to. -/
inductive Stepped (codec : Codec V) (s : Etcd V) (t : Task V) : Progress V → Prop where
  /-- it has passed the check -/
  | admitted (hbefore : t.stage.wrote = false) (hparsed : t.req.Parsed codec) : Stepped codec s t (.goes s .store)
  /-- it is refused before it has written anything -/
  | refused (hbefore : t.stage.wrote = false) (e : Error) : Stepped codec s t (.answered s (some e))
  /-- it panics before it has written anything -/
  | died (hbefore : t.stage.wrote = false) : Stepped codec s t .died
  /-- it is between its two writes -/
  | half {s' : Etcd V} {stage : Stage} (hbefore : t.stage.wrote = true ∨ t.stage = .store)
      (hparsed : t.req.Parsed codec) (honly : OnlyAt t.req.key s s') (hafter : stage.wrote = true)
      (hhalf : Half s' ⟨t.req, stage⟩) : Stepped codec s t (.goes s' stage)
  /-- it has made its second write -/
  | done {s' : Etcd V} (hbefore : t.stage.wrote = true) (honly : OnlyAt t.req.key s s')
      (hmatched : Matched codec s' t.req.key) : Stepped codec s t (.answered s' none)

theorem createFuncCheck_parsed {obj : DataObject V} (h : s.createFuncCheck codec obj = .ok ()) :
    ∃ f, codec.func obj.object = some f := by
  unfold Etcd.createFuncCheck at h
  obtain ⟨f, hf, -⟩ := Except.bind_eq_ok.mp h
  exact ⟨f, parse_ok hf⟩

theorem updateFuncCheck_parsed {obj : DataObject V} (h : s.updateFuncCheck codec obj = .ok ()) :
    ∃ f, codec.func obj.object = some f := by
  unfold Etcd.updateFuncCheck at h
  obtain ⟨f, hf, -⟩ := Except.bind_eq_ok.mp h
  exact ⟨f, parse_ok hf⟩

theorem admission_parsed {r : Request V} (htype : r.objType = functionKEY)
    (h : r.admission codec env = .ok ()) : r.Parsed codec := by
  cases r with
  | create obj => exact createFuncCheck_parsed (createObjCheck_function h htype)
  | update expectRev obj => exact updateFuncCheck_parsed (updateObjCheck_function h htype)
  | delete objType tenant nameSpace name expectRev => trivial

variable {t : Task V}

/-- The function that has been put. -/
theorem get_put_function (key : String) (obj : DataObject V) (s : Etcd V) :
    ((s.put (storeKey functionKEY key) obj).kvs[storeKey functionKEY key]?).map DataObject.object = some obj.object := by
  unfold Etcd.put
  rw [BTreeMap.get_insert_self]
  rfl

/-- A function that is matched and not there has no status. -/
theorem Matched.status_none {key : String} (h : Matched codec s key) (hfunc : s.kvs[storeKey functionKEY key]? = none) :
    s.kvs[storeKey funcstatusKEY key]? = none := by
  unfold Matched at h
  rw [hfunc] at h
  rcases hstatus : s.kvs[storeKey funcstatusKEY key]? with _ | o
  · rfl
  · rw [hstatus] at h
    exact h.elim

/-- The first write. -/
theorem store_stepped (htold : env.Told) (htype : t.req.objType = functionKEY) (hstage : t.stage = .store)
    (hparsed : t.req.Parsed codec) (hmatched : Matched codec s t.req.key) :
    Stepped codec s t (.first (.status t.req.attempts) (t.req.store env s)) := by
  have hbefore : t.stage.wrote = false := by rw [hstage]; rfl
  obtain ⟨r, stage⟩ := t
  cases r with
  | create obj =>
    rcases storeCreate_cases htold obj s with ⟨e, he⟩ | ⟨hnew, hok⟩
    · have hrun : Request.store env (.create obj) s = .err e s := he
      rw [hrun]
      exact .refused hbefore e
    · have hobj : obj.objType = functionKEY := htype
      rw [hobj, prepareKey_pair (by decide)] at hnew hok
      have hrun : Request.store env (.create obj) s = .ok () (s.put (storeKey functionKEY obj.key) obj) := hok
      rw [hrun]
      -- there was no function, so there was no status either
      refine .half (Or.inr hstage) hparsed (onlyAt_put (by decide) _ _ _) rfl ⟨get_put_function _ _ _, ?_, _, rfl⟩
      exact (BTreeMap.get_insert_of_ne (status_ne_function _)).trans (hmatched.status_none hnew)
  | update expectRev obj =>
    rcases storeUpdate_cases htold expectRev obj s with ⟨e, he⟩ | hok
    · have hrun : Request.store env (.update expectRev obj) s = .err e s := he
      rw [hrun]
      exact .refused hbefore e
    · have hobj : obj.objType = functionKEY := htype
      rw [hobj, prepareKey_pair (by decide)] at hok
      have hrun : Request.store env (.update expectRev obj) s = .ok () (s.put (storeKey functionKEY obj.key) obj) := hok
      rw [hrun]
      refine .half (Or.inr hstage) hparsed (onlyAt_put (by decide) _ _ _) rfl ⟨get_put_function _ _ _, ?_⟩
      intro left expectedRev hput
      cases hput
  | delete objType tenant nameSpace name expectRev =>
    have hobj : objType = functionKEY := htype
    subst hobj
    rcases storeDelete_cases htold (storeKey functionKEY (objKey tenant nameSpace name)) expectRev s with
      ⟨e, he⟩ | ⟨p, hp⟩ | hok
    · have hrun : Request.store env (.delete functionKEY tenant nameSpace name expectRev) s = .err e s := he
      rw [hrun]
      exact .refused hbefore e
    · have hrun : Request.store env (.delete functionKEY tenant nameSpace name expectRev) s = .panic p := hp
      rw [hrun]
      exact .died hbefore
    · rw [prepareKey_pair (by decide)] at hok
      have hrun : Request.store env (.delete functionKEY tenant nameSpace name expectRev) s =
          .ok () (s.del (storeKey functionKEY (objKey tenant nameSpace name))) := hok
      rw [hrun]
      refine .half (Or.inr hstage) hparsed (onlyAt_del (by decide) _ _) rfl ⟨?_, _, rfl⟩
      unfold Etcd.del
      rw [BTreeMap.get_erase, if_pos rfl]

/-- The operations on the status, if they do not fail. -/
theorem status_stepped (hfails : env.fails = none) {left : ℕ} (hstage : t.stage = .status left)
    (hparsed : t.req.Parsed codec) (hhalf : Half s t) : Stepped codec s t (t.req.status codec env s left) := by
  have hbefore : t.stage.wrote = true := by rw [hstage]; rfl
  obtain ⟨r, stage⟩ := t
  cases r with
  | create obj =>
    obtain ⟨f, hf⟩ := hparsed
    obtain ⟨hfunc, hstatus, -⟩ := hhalf
    have hkey : prepareKey (storeKey funcstatusKEY obj.key) = storeKey funcstatusKEY obj.key := prepareKey_pair (by decide) _
    have hok : storeCreate none (initialStatus codec obj f) s =
        .ok () (s.put (prepareKey (storeKey funcstatusKEY obj.key)) (initialStatus codec obj f)) :=
      storeCreate_ok (by rw [← hkey] at hstatus; exact hstatus)
    have hrun : Request.status codec env s left (.create obj) =
        .answered (s.put (storeKey funcstatusKEY obj.key) (initialStatus codec obj f)) none := by
      unfold Request.status
      dsimp only
      rw [hf, hfails]
      dsimp only
      rw [hok, hkey]
      rfl
    rw [hrun]
    exact .done hbefore (onlyAt_put (by decide) _ _ _) (matched_put hf hfunc)
  | update expectRev obj =>
    obtain ⟨f, hf⟩ := hparsed
    have hrun : Request.status codec env s left (.update expectRev obj) =
        .goes s (.statusPut left ((s.kvs[storeKey funcstatusKEY obj.key]?.map DataObject.revision).getD 0)) := by
      unfold Request.status
      dsimp only
      rw [hf, hfails]
    rw [hrun]
    refine .half (Or.inl hbefore) ⟨f, hf⟩ (OnlyAt.refl _ _) rfl ⟨hhalf.1, ?_⟩
    intro left' expectedRev hput
    cases hput
    rfl
  | delete objType tenant nameSpace name expectRev =>
    have hrun : Request.status codec env s left (.delete objType tenant nameSpace name expectRev) =
        .answered (s.del (storeKey funcstatusKEY (objKey tenant nameSpace name))) none := by
      unfold Request.status
      dsimp only
      rw [hfails, storeDelete_ok, prepareKey_pair (by decide)]
      rfl
    rw [hrun]
    exact .done hbefore (onlyAt_del (by decide) _ _) (matched_del hhalf.1)

/-- The write over the revision that has been read. -/
theorem statusPut_stepped (hfails : env.fails = none) {left : ℕ} {expectedRev : ℤ}
    (hstage : t.stage = .statusPut left expectedRev) (hparsed : t.req.Parsed codec) (hhalf : Half s t) :
    Stepped codec s t (t.req.statusPut codec env s left expectedRev) := by
  have hbefore : t.stage.wrote = true := by rw [hstage]; rfl
  obtain ⟨r, stage⟩ := t
  cases r with
  | create obj =>
    -- only an update reads the status before it writes it
    obtain ⟨-, -, _, hother⟩ := hhalf
    cases hstage.symm.trans hother
  | update expectRev obj =>
    obtain ⟨f, hf⟩ := hparsed
    obtain ⟨hfunc, hrev⟩ := hhalf
    have hkey : prepareKey (storeKey funcstatusKEY obj.key) = storeKey funcstatusKEY obj.key := prepareKey_pair (by decide) _
    have hrev' := hrev left expectedRev hstage
    have hok : storeUpdate none expectedRev (initialStatus codec obj f) s =
        .ok () (s.put (prepareKey (storeKey funcstatusKEY obj.key)) (initialStatus codec obj f)) :=
      storeUpdate_ok (by rw [← hkey] at hrev'; exact hrev')
    have hrun : Request.statusPut codec env s left expectedRev (.update expectRev obj) =
        .answered (s.put (storeKey funcstatusKEY obj.key) (initialStatus codec obj f)) none := by
      unfold Request.statusPut
      dsimp only
      rw [hf, hfails]
      dsimp only
      rw [hok, hkey]
    rw [hrun]
    exact .done hbefore (onlyAt_put (by decide) _ _ _) (matched_put hf hfunc)
  | delete objType tenant nameSpace name expectRev =>
    obtain ⟨-, _, hother⟩ := hhalf
    cases hstage.symm.trans hother

/-- **One step of a request.** -/
theorem task_stepped (htype : t.req.objType = functionKEY) (hparsed : t.stage ≠ .admission → t.req.Parsed codec)
    (htold : t.stage = .store → env.Told) (hmatched : t.stage = .store → Matched codec s t.req.key)
    (hhalf : t.stage.wrote = true → Half s t) (hfails : t.stage.wrote = true → env.fails = none) : Stepped codec s t (t.step codec env s) := by
  unfold Task.step
  split
  next hstage =>
    have hbefore : t.stage.wrote = false := by rw [hstage]; rfl
    split
    next hadmission => exact .admitted hbefore (admission_parsed htype hadmission)
    next e _ => exact .refused hbefore e
  next hstage => exact store_stepped (htold hstage) htype hstage (hparsed (by rw [hstage]; decide)) (hmatched hstage)
  next left hstage =>
    have hwrote : t.stage.wrote = true := by rw [hstage]; rfl
    exact status_stepped (hfails hwrote) hstage (hparsed (by rw [hstage]; intro h; cases h)) (hhalf hwrote)
  next left expectedRev hstage =>
    have hwrote : t.stage.wrote = true := by rw [hstage]; rfl
    exact statusPut_stepped (hfails hwrote) hstage (hparsed (by rw [hstage]; intro h; cases h)) (hhalf hwrote)

/-! ## Runs -/

/-- Functions and statuses, while requests are in progress. -/
structure Coupled (codec : Codec V) (s : Service V) : Prop where
  /-- the requests are about functions -/
  about : ∀ t ∈ s.tasks, t.req.objType = functionKEY
  /-- what has been checked holds a function -/
  parsed : ∀ t ∈ s.tasks, t.stage ≠ .admission → t.req.Parsed codec
  /-- what is between its two writes has made the first -/
  half : ∀ t ∈ s.tasks, t.stage.wrote = true → Half s.etcd t
  /-- no two requests are between their two writes of one name -/
  alone : s.tasks.Pairwise fun t t' => t.stage.wrote = true → t'.stage.wrote = true → t.req.key ≠ t'.req.key
  /-- all other functions match their statuses -/
  matched : ∀ key, (∀ t ∈ s.tasks, t.stage.wrote = true → t.req.key ≠ key) → Matched codec s.etcd key
  /-- errors are of requests that have not written -/
  answers : ∀ a ∈ s.answers, a.error ≠ none → a.wrote = false

namespace Coupled

variable {c : Service V} {i : ℕ} {answers : List (Answer V)}

theorem together (h : Coupled codec c) : c.Together codec := by
  refine ⟨h.answers, fun hquiet key => h.matched key fun t ht => ?_⟩
  rw [hquiet] at ht
  cases ht

theorem alone_split (h : Coupled codec c) (hi : c.tasks[i]? = some t) :
    (t.stage.wrote = true → ∀ t' ∈ c.tasks.eraseIdx i, t'.stage.wrote = true → t'.req.key ≠ t.req.key) ∧
      (c.tasks.eraseIdx i).Pairwise fun t t' =>
        t.stage.wrote = true → t'.stage.wrote = true → t.req.key ≠ t'.req.key := by
  obtain ⟨hhead, htail⟩ := h.alone.step (fun hne hw hw' => (hne hw' hw).symm) hi
  exact ⟨fun hwrote t' ht' hwrote' => (hhead t' ht' hwrote hwrote').symm, htail⟩

/-- A request is replaced by what it goes on as: what is said of each request is carried over, and
there is left what it and the store have to do with each other. -/
theorem replace (h : Coupled codec c) (hi : c.tasks[i]? = some t) (new : List (Task V))
    (hreq : ∀ t' ∈ new, t'.req = t.req) (hparsed : ∀ t' ∈ new, t'.req.Parsed codec)
    (hlone : new.Pairwise fun _ _ => False)
    (hhalf : ∀ t' ∈ c.tasks.eraseIdx i ++ new, t'.stage.wrote = true → Half s' t')
    (halone : ∀ t' ∈ c.tasks.eraseIdx i, t'.stage.wrote = true → ∀ t'' ∈ new,
      t''.stage.wrote = true → t'.req.key ≠ t.req.key)
    (hmatched : ∀ key, (∀ t' ∈ c.tasks.eraseIdx i ++ new, t'.stage.wrote = true →
      t'.req.key ≠ key) → Matched codec s' key)
    (hanswers : ∀ a ∈ answers, a.error ≠ none → a.wrote = false) :
    Coupled codec ⟨s', c.tasks.eraseIdx i ++ new, answers⟩ := by
  have hold : ∀ t' ∈ c.tasks.eraseIdx i, t' ∈ c.tasks := fun _ => List.mem_of_mem_eraseIdx
  refine ⟨fun t' ht' => ?_, fun t' ht' hstage => ?_, hhalf, ?_, hmatched, hanswers⟩
  · rcases List.mem_append.mp ht' with hrest | hnew
    · exact h.about t' (hold t' hrest)
    · rw [hreq t' hnew]
      exact h.about t (List.mem_of_getElem? hi)
  · rcases List.mem_append.mp ht' with hrest | hnew
    · exact h.parsed t' (hold t' hrest) hstage
    · exact hparsed t' hnew
  · refine List.pairwise_append.mpr ⟨(h.alone_split hi).2, hlone.imp False.elim,
      fun t' ht' t'' hnew hwrote hwrote' => ?_⟩
    rw [hreq t'' hnew]
    exact halone t' ht' hwrote t'' hnew hwrote'

/-- A request that has not written goes on, or is answered. -/
theorem quiet (h : Coupled codec c) (hi : c.tasks[i]? = some t) (hbefore : t.stage.wrote = false)
    (new : List (Task V)) (hreq : ∀ t' ∈ new, t'.req = t.req)
    (hparsed : ∀ t' ∈ new, t'.req.Parsed codec) (hafter : ∀ t' ∈ new, t'.stage.wrote = false)
    (hlone : new.Pairwise fun _ _ => False)
    (hanswers : ∀ a ∈ answers, a.error ≠ none → a.wrote = false) :
    Coupled codec ⟨c.etcd, c.tasks.eraseIdx i ++ new, answers⟩ := by
  refine h.replace hi new hreq hparsed hlone (fun t' ht' hwrote => ?_)
    (fun _ _ _ t'' hnew hwrote => absurd hwrote (by rw [hafter t'' hnew]; decide))
    (fun key hkey => ?_) hanswers
  · rcases List.mem_append.mp ht' with hrest | hnew
    · exact h.half t' (List.mem_of_mem_eraseIdx hrest) hwrote
    · exact absurd hwrote (by rw [hafter t' hnew]; decide)
  · refine h.matched key fun t' ht' hwrote => ?_
    rcases List.eq_or_mem_eraseIdx hi ht' with rfl | hrest
    · exact absurd hwrote (by rw [hbefore]; decide)
    · exact hkey t' (List.mem_append_left _ hrest) hwrote

/-- A request writes while no other is between its two writes of the same name. -/
theorem wrote (h : Coupled codec c) (hi : c.tasks[i]? = some t) (honly : OnlyAt t.req.key c.etcd s')
    (halone : ∀ t' ∈ c.tasks.eraseIdx i, t'.stage.wrote = true → t'.req.key ≠ t.req.key)
    (new : List (Task V)) (hreq : ∀ t' ∈ new, t'.req = t.req)
    (hparsed : ∀ t' ∈ new, t'.req.Parsed codec) (hhalf : ∀ t' ∈ new, Half s' t')
    (hlone : new.Pairwise fun _ _ => False)
    (hmatched : (∀ t' ∈ new, t'.stage.wrote = false) → Matched codec s' t.req.key)
    (hanswers : ∀ a ∈ answers, a.error ≠ none → a.wrote = false) :
    Coupled codec ⟨s', c.tasks.eraseIdx i ++ new, answers⟩ := by
  refine h.replace hi new hreq hparsed hlone (fun t' ht' hwrote => ?_)
    (fun t' ht' hwrote _ _ _ => halone t' ht' hwrote) (fun key hkey => ?_) hanswers
  · rcases List.mem_append.mp ht' with hrest | hnew
    · exact (h.half t' (List.mem_of_mem_eraseIdx hrest) hwrote).congr
        (honly _ (halone t' hrest hwrote))
    · exact hhalf t' hnew
  · by_cases heq : key = t.req.key
    · subst heq
      -- the request is done with the name, or it is still between its two writes
      refine hmatched fun t' hnew => ?_
      by_contra hwrote
      exact hkey t' (List.mem_append_right _ hnew) (Bool.not_eq_false _ ▸ hwrote)
        (congrArg Request.key (hreq t' hnew))
    · refine Matched.congr (honly key heq) (h.matched key fun t' ht' hwrote => ?_)
      rcases List.eq_or_mem_eraseIdx hi ht' with rfl | hrest
      · exact Ne.symm heq
      · exact hkey t' (List.mem_append_left _ hrest) hwrote

/-- One answer more. -/
theorem answered (h : Coupled codec c) {a : Answer V} (ha : a.error ≠ none → a.wrote = false) :
    ∀ a' ∈ c.answers ++ [a], a'.error ≠ none → a'.wrote = false := by
  intro a' ha'
  rcases List.mem_append.mp ha' with hold | hnew
  · exact h.answers a' hold
  · obtain rfl := List.mem_singleton.mp hnew
    exact ha

/-- A request comes in. -/
theorem arrive (h : Coupled codec c) {r : Request V} (htype : r.objType = functionKEY) :
    Coupled codec { c with tasks := c.tasks ++ [⟨r, .admission⟩] } := by
  refine ⟨fun t' ht' => ?_, fun t' ht' hstage => ?_, fun t' ht' hwrote => ?_, ?_, fun key hkey => ?_, h.answers⟩
  · rcases List.mem_append.mp ht' with hold | hnew
    · exact h.about t' hold
    · obtain rfl := List.mem_singleton.mp hnew
      exact htype
  · rcases List.mem_append.mp ht' with hold | hnew
    · exact h.parsed t' hold hstage
    · obtain rfl := List.mem_singleton.mp hnew
      exact absurd rfl hstage
  · rcases List.mem_append.mp ht' with hold | hnew
    · exact h.half t' hold hwrote
    · obtain rfl := List.mem_singleton.mp hnew
      cases hwrote
  · refine List.pairwise_append.mpr ⟨h.alone, List.pairwise_singleton _ _, fun t' _ t'' hnew _ hwrote => ?_⟩
    obtain rfl := List.mem_singleton.mp hnew
    cases hwrote
  · exact h.matched key fun t' ht' => hkey t' (List.mem_append_left _ ht')

/-- **One step of the service.** -/
theorem next (h : Coupled codec c) {c' : Service V} {a : Act V} (hok : ActOk c a) (hnext : c.next codec a = some c') :
    Coupled codec c' := by
  cases a with
  | arrive r =>
    unfold Service.next at hnext
    dsimp only at hnext
    split at hnext
    next htype =>
      obtain rfl := Option.some.inj hnext
      exact h.arrive htype
    next => cases hnext
  | step i env =>
    unfold Service.next at hnext
    dsimp only at hnext
    split at hnext
    next => cases hnext
    next t hi =>
      obtain ⟨hfree, hfails⟩ := hok t hi
      have ht := List.mem_of_getElem? hi
      -- before its first write no other request is between its two writes of the name
      have hstore : t.stage = .store →
          ∀ t' ∈ c.tasks.eraseIdx i, t'.stage.wrote = true → t'.req.key ≠ t.req.key := fun hstage t' ht' =>
        (hfree hstage).2 t' (List.mem_of_mem_eraseIdx ht')
      have hstep := task_stepped (h.about t ht) (h.parsed t ht) (fun hstage => (hfree hstage).1)
        (fun hstage => h.matched _ (hfree hstage).2)
        (h.half t ht) hfails
      generalize t.step codec env c.etcd = p at hstep hnext
      cases hstep with
      | admitted hbefore hparsed =>
        obtain rfl := Option.some.inj hnext
        exact h.quiet hi hbefore _ (by simp) (by simpa using hparsed) (by simp [Stage.wrote])
          (List.pairwise_singleton _ _) h.answers
      | refused hbefore e =>
        obtain rfl := Option.some.inj hnext
        have hanswers := h.answered (a := ⟨t.req, some e, t.stage.wrote || c.etcd.revision != c.etcd.revision⟩)
          fun _ => by simp [hbefore]
        simpa using h.quiet hi hbefore [] (by simp) (by simp) (by simp) List.Pairwise.nil hanswers
      | died hbefore =>
        obtain rfl := Option.some.inj hnext
        simpa using h.quiet hi hbefore [] (by simp) (by simp) (by simp) List.Pairwise.nil h.answers
      | half hbefore hparsed honly hafter hhalf =>
        obtain rfl := Option.some.inj hnext
        have halone : ∀ t' ∈ c.tasks.eraseIdx i, t'.stage.wrote = true → t'.req.key ≠ t.req.key := by
          rcases hbefore with hwrote | hstage
          · exact (h.alone_split hi).1 hwrote
          · exact hstore hstage
        exact h.wrote hi honly halone _ (by simp) (by simpa using hparsed) (by simpa using hhalf)
          (List.pairwise_singleton _ _) (by simp [hafter]) h.answers
      | done hbefore honly hmatched =>
        obtain rfl := Option.some.inj hnext
        have hanswers (wrote : Bool) := h.answered (a := ⟨t.req, none, wrote⟩) fun hne => absurd rfl hne
        simpa using h.wrote hi honly ((h.alone_split hi).1 hbefore) [] (by simp) (by simp) (by simp)
          List.Pairwise.nil (fun _ => hmatched) (hanswers _)

end Coupled

/-- No request has come in, and functions match their statuses. -/
def Service.Start (codec : Codec V) (c : Service V) : Prop :=
  c.tasks = [] ∧ c.answers = [] ∧ ∀ key, Matched codec c.etcd key

theorem Service.Start.coupled {c : Service V} (h : c.Start codec) : Coupled codec c := by
  obtain ⟨htasks, hanswers, hmatched⟩ := h
  refine ⟨?_, ?_, ?_, ?_, fun key _ => hmatched key, ?_⟩
  · simp [htasks]
  · simp [htasks]
  · simp [htasks]
  · simp [htasks]
  · simp [hanswers]

/-- **Functions keep their statuses.** In every run in which a function is written only
while no other request on it is between its two writes, the answer to that write is never
lost, and no operation on a status fails, an error means that nothing has been written, and
functions match their statuses when no request is in progress. -/
theorem together_of_reach {c : Service V} (h : Reach (Service.next codec) (Service.Start codec) ActOk c) :
    c.Together codec := by
  refine (h.invariant (I := Coupled codec) (fun c hc => ?_) fun c a c' hc hok hnext => ?_).together
  · exact Service.Start.coupled hc
  · exact hc.next hok hnext

instance (env : StepEnv V) : Decidable env.Told :=
  match hfails : env.fails with
  | some (.lost e) => isFalse fun h => h e hfails
  | some (.refused _) => isTrue fun _ h => by cases hfails.symm.trans h
  | none => isTrue fun _ h => by cases hfails.symm.trans h

instance (c : Service V) (a : Act V) : Decidable (ActOk c a) :=
  match a with
  | .arrive _ => instDecidableTrue
  | .step i env => inferInstanceAs (Decidable (∀ t ∈ c.tasks[i]?,
      (t.stage = .store →
        env.Told ∧ ∀ t' ∈ c.tasks, t'.stage.wrote = true → t'.req.key ≠ t.req.key) ∧
        (t.stage.wrote = true → env.fails = none)))

namespace Sample

/-- A store with a tenant and a namespace. -/
def room : Etcd Value :=
  (({} : Etcd Value).put (storeKey tenantKEY "system/system/t") (named tenantKEY "system" "system" "t" (.tenant {}))).put
    (storeKey namespaceKEY "t/system/n") (named namespaceKEY "t" "system" "n" .nameSpace)

/-- A function is created. The operation on its status fails in the given way. -/
def statusFails (e : Option Failure) : List (Act Value) :=
  [.arrive (.create (named functionKEY "t" "n" "f" (.func {}))), .step 0 { seen := room }, .step 0 {},
    .step 0 { fails := e }]

theorem room_none {a : String} (ha : a ∈ pairTypes) (key : String) : room.kvs[storeKey a key]? = none := by
  have hplain : ∀ a ∈ pairTypes, '/' ∉ a.toList ∧ a ≠ tenantKEY ∧ a ≠ namespaceKEY := by decide
  obtain ⟨hslash, htenant, hspace⟩ := hplain a ha
  unfold room Etcd.put
  rw [BTreeMap.get_insert_of_ne fun heq => hspace (storeKey_inj hslash (by decide) heq).1,
    BTreeMap.get_insert_of_ne fun heq => htenant (storeKey_inj hslash (by decide) heq).1]
  rfl

theorem start_room : Service.Start json { etcd := room } := by
  refine ⟨rfl, rfl, fun key => ?_⟩
  unfold Matched
  rw [room_none (by decide), room_none (by decide)]
  trivial

end Sample

/-- A function is created with its status. -/
theorem together_after_create : ∃ c, exec (Service.next Sample.json) ActOk { etcd := Sample.room }
    (Sample.statusFails none) = some c ∧ c.tasks.length = 0 ∧ c.etcd.kvs.contains "function/t/n/f" = true ∧
      c.Together Sample.json := by
  have hrun : (exec (Service.next Sample.json) ActOk { etcd := Sample.room } (Sample.statusFails none)).map
      (fun c => (c.tasks.length, c.etcd.kvs.contains "function/t/n/f")) = some (0, true) := by
    decide +kernel
  obtain ⟨c, hc, hends⟩ := Option.map_eq_some_iff.mp hrun
  obtain ⟨htasks, hfunc⟩ := Prod.mk.inj hends
  exact ⟨c, hc, htasks, hfunc, together_of_reach (Reach.of_exec _ _ (.init Sample.start_room) hc)⟩

/-- A creation is answered with an error after it has written the function. -/
theorem error_after_write : ¬ ∀ c : Service Sample.Value,
    Reach (Service.next Sample.json) (Service.Start Sample.json) (fun _ _ => True) c → c.Together Sample.json := by
  intro h
  have hrun : (exec (Service.next Sample.json) (fun _ _ => True) { etcd := Sample.room }
      (Sample.statusFails (some (.refused (.etcdError ""))))).map
        (fun c => c.answers.map fun a => (a.error.isSome, a.wrote)) = some [(true, true)] := by
    decide +kernel
  obtain ⟨c, hc, hanswers⟩ := Option.map_eq_some_iff.mp hrun
  have htogether := h c (Reach.of_exec _ _ (.init Sample.start_room) hc)
  obtain ⟨a, ha⟩ := List.length_eq_one_iff.mp ((List.length_map _).symm.trans (congrArg List.length hanswers))
  rw [ha] at hanswers
  obtain ⟨herror, hwrote⟩ := Prod.mk.inj (List.cons.inj hanswers).1
  have hnot := htogether.1 a (by rw [ha]; exact List.mem_singleton_self a) (Option.isSome_iff_ne_none.mp herror)
  rw [hwrote] at hnot
  cases hnot

end Inferx.StateSvc
