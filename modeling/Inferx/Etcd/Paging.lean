import Mathlib.Data.List.Sort
import Inferx.Lib.Strs
import Inferx.Metastore.Objects

/-!
# Lists page by page

`EtcdStore::List` reads a range of keys and keeps the objects a predicate selects. With a
limit it reads as many keys as the page has places; if the predicate drops some of them
and there are more keys, it reads again with twice the number, from the same key on and
into the same page. So a page is what it should be only if the first read that selects
anything fills it or sees all. The token of the next page is the last key that was
looked at, relative to the prefix of the list, and the next page starts a little behind
it.

The contents do not change here, so that a single revision of them is read.
-/

namespace Inferx.Etcd

open Metastore Strs String

variable {V : Type}

/-! ## Tokens -/

/-- `Continue`. -/
structure Continue where
  key : String
  revision : ℤ
  deriving DecidableEq, Repr

/-- The errors of a list. -/
inductive ListError where
  | common (text : String)
  /-- the answer is older than what is asked for -/
  | newMinRevision (minRevision actualRevision : ℤ)
  deriving DecidableEq, Repr

/-- `Continue::Continue`: the key to start from. -/
def Continue.continue_ (c : Continue) (keyPrefix : String) : Except ListError (String × ℤ) :=
  if c.revision = 0 then
    .error (.common ("continue key is not valid: incorrect encoded start resourceVersion " ++
      "(version meta.k8s.io/v1)"))
  else if c.key = "" then
    .error (.common "continue key is not valid: encoded start key empty (version meta.k8s.io/v1)")
  else
    let key := if ['/'].isPrefixOf c.key.toList then c.key.toList else '/' :: c.key.toList
    .ok (keyPrefix ++ ofList (key.drop 1), c.revision)

/-- `EncodeContinue`. -/
def encodeContinue (key keyPrefix : String) (revision : ℤ) : Except ListError Continue :=
  match afterPrefix keyPrefix key with
  | some nextKey => .ok ⟨nextKey, revision⟩
  | none => .error (.common
      s!"unable to encode next field: the key '{key}' and key prefix '{keyPrefix}' do not match")

/-- `EtcdStore::GetPrefixRangeEnd`: the last byte is counted up. The prefixes of lists end with a
slash, so that it is the last character. -/
def getPrefixRangeEnd (pre : String) : String :=
  match pre.toList.getLast? with
  | some c => ofList (pre.toList.dropLast ++ [Char.ofNat (c.toNat + 1)])
  | none => "\x00"

/-! ## Reading -/

/-- A key and what it stores. -/
abbrev Stored (V : Type) : Type := String × DataObject V

/-- The answer to a read. -/
structure GetResponse (V : Type) where
  kvs : List (Stored V)
  more : Bool
  count : ℕ

/-- What etcd answers when the range holds these keys: as many as the limit allows. -/
def answer (range : List (Stored V)) (limit : ℕ) : GetResponse V where
  kvs := if limit = 0 then range else range.take limit
  more := limit != 0 && decide (limit < range.length)
  count := range.length

/-- `MAX_LIMIT`. -/
def maxLimit : ℕ := 10000

/-- The next page size. -/
def grow (limit : ℕ) : ℕ := if limit < maxLimit then min (limit * 2) maxLimit else limit

/-- The keys of an answer: what is selected, the last key that was looked at, and whether there
are more. -/
def readKvs (pred : DataObject V → Bool) (limit : ℕ) (paging : Bool) :
    List (Stored V) → List (Stored V) → String → Bool → List (Stored V) × String × Bool
  | [], v, lastKey, hasMore => (v, lastKey, hasMore)
  | kv :: kvs, v, lastKey, hasMore =>
    if (paging && decide (limit ≤ v.length)) = true then (v, lastKey, true)
    else readKvs pred limit paging kvs (if pred kv.2 then v ++ [kv] else v) kv.1 hasMore

/-- What the loop of a list ends with. -/
structure Fetched (V : Type) where
  objs : List (Stored V)
  lastKey : String
  hasMore : Bool
  count : ℕ

/-- The loop of `EtcdStore::List`, for as many reads as there is fuel. -/
def fetchLoop (range : List (Stored V)) (pred : DataObject V → Bool) (limit : ℕ) (paging : Bool) :
    ℕ → ℕ → List (Stored V) → String → Option (Except ListError (Fetched V))
  | 0, _, _, _ => none
  | fuel + 1, size, v, lastKey =>
    let resp := answer range (if paging then size else 0)
    if (resp.kvs.isEmpty && resp.more) = true then
      some (.error (.common
        "no results were found, but etcd indicated there were more values remaining"))
    else
      let r := readKvs pred limit paging resp.kvs v lastKey resp.more
      if (!r.2.2 || !paging) = true then some (.ok ⟨r.1, r.2.1, r.2.2, resp.count⟩)
      else if limit ≤ r.1.length then some (.ok ⟨r.1, r.2.1, r.2.2, resp.count⟩)
      else fetchLoop range pred limit paging fuel (grow size) r.1 r.2.1

/-! ## Lists -/

/-- `RevisionMatch`. -/
inductive RevisionMatch where
  | none | notOlderThan | exact
  deriving DecidableEq, Repr

/-- `ListOption` with its predicate. -/
structure ListOption (V : Type) where
  revision : ℤ := 0
  revisionMatch : RevisionMatch := .none
  pred : DataObject V → Bool
  /-- has the predicate no requirement? -/
  empty : Bool := false
  limit : ℕ := 0
  continue_ : Option Continue := none

/-- `DataObjList`, each object with the key it is stored under. -/
structure DataObjList (V : Type) where
  objs : List (Stored V)
  revision : ℤ
  continue_ : Option Continue
  remainCount : ℤ

/-- `EtcdStore` and what etcd holds at its revision. -/
structure EtcdStore (V : Type) where
  pathPrefix : String := "/registry"
  pagingEnable : Bool
  contents : Objects V
  revision : ℤ

namespace EtcdStore

/-- `PrepareKey`. -/
def prepareKey (s : EtcdStore V) (key : String) : Except ListError String :=
  if key = "." ∨ key = "/" then .error (.common s!"invalid key: {key}")
  else .ok (s.pathPrefix ++ "/" ++ ofList (if ['/'].isPrefixOf key.toList then key.toList.drop 1
    else key.toList))

/-- The prefix of the keys that are listed. -/
def keyPrefix (preparedKey : String) : String :=
  if ['/'].isSuffixOf preparedKey.toList then preparedKey else preparedKey ++ "/"

/-- The keys from `start` on up to the end of a prefix. -/
def range (s : EtcdStore V) (keyPrefix start : String) : List (Stored V) :=
  s.contents.toList.filter fun p =>
  decide (start ≤ p.1) && decide (p.1 < getPrefixRangeEnd keyPrefix)

/-- The prefix of a list, the key it starts from, and the revision it is at, if it is known. -/
def listStart (s : EtcdStore V) (pre : String) (opts : ListOption V) :
    Except ListError (String × String × ℤ) := do
  let preparedKey ← s.prepareKey pre
  match (if s.pagingEnable then opts.continue_ else none) with
  | some c =>
    let (continueKey, continueRv) ← c.continue_ (keyPrefix preparedKey)
    return (keyPrefix preparedKey, continueKey, if 0 < continueRv then continueRv else 0)
  | none =>
    return (keyPrefix preparedKey, keyPrefix preparedKey,
      if 0 < opts.revision ∧ opts.revisionMatch = .exact then opts.revision else 0)

/-- What a list returns when its loop is done. -/
def finish (opts : ListOption V) (keyPrefix : String) (returnedRV : ℤ) (out : Fetched V) :
    Except ListError (DataObjList V) :=
  if out.hasMore then do
    let next ← encodeContinue (out.lastKey ++ "\x000") keyPrefix returnedRV
    return ⟨out.objs, returnedRV, some next,
      if opts.empty then (out.count : ℤ) - opts.limit else -1⟩
  else .ok ⟨out.objs, returnedRV, none, -1⟩

/-- `EtcdStore::List`. -/
def list (fuel : ℕ) (s : EtcdStore V) (pre : String) (opts : ListOption V) :
    Option (Except ListError (DataObjList V)) :=
  match s.listStart pre opts with
  | .error e => some (.error e)
  | .ok (keyPrefix, start, rv) =>
    -- `ValidateMinimumResourceVersion`
    if opts.revision ≠ 0 ∧ s.revision < opts.revision then
      some (.error (.newMinRevision opts.revision s.revision))
    else
      (fetchLoop (s.range keyPrefix start) opts.pred opts.limit
          (s.pagingEnable && decide (0 < opts.limit)) fuel opts.limit [] "").map fun r =>
        r.bind (finish opts keyPrefix (if rv = 0 then s.revision else rv))

/-- Repeating a list with the token it returns, until it returns none. -/
inductive Pages (s : EtcdStore V) (pre : String) (opts : ListOption V) :
    Option Continue → List (List (Stored V)) → Prop where
  | last {token fuel r} : s.list fuel pre { opts with continue_ := token } = some (.ok r) →
      r.continue_ = none → Pages s pre opts token [r.objs]
  | next {token fuel r c ps} : s.list fuel pre { opts with continue_ := token } = some (.ok r) →
      r.continue_ = some c → Pages s pre opts (some c) ps → Pages s pre opts token (r.objs :: ps)

end EtcdStore

end Inferx.Etcd
