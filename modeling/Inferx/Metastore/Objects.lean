import Mathlib.Data.Nat.Notation
import Mathlib.Data.Int.Notation
import Inferx.Lib.Map

/-!
# Objects and events of the metastore

What the metastore keeps and sends around: a `DataObject` with its names, its
labels and three revisions, and the events about objects. `channelRev` counts
the events of the server that hands the object out, `revision` is set by the
creator of the object (such as etcd), and `srcEpoch` tells apart the lives of
the creator. The payload type `V` is the JSON value of the source.
-/

namespace Inferx.Metastore

/-- An object of the metastore. -/
structure DataObject (V : Type) where
  /-- the kind of object -/
  objType : String
  /-- its tenant -/
  tenant : String
  /-- its namespace -/
  nameSpace : String
  /-- its name -/
  name : String
  /-- labels -/
  labels : BTreeMap String String := ∅
  /-- annotations -/
  annotations : BTreeMap String String := ∅
  /-- revision of the channel -/
  channelRev : ℤ := 0
  /-- epoch of the creator -/
  srcEpoch : ℤ := 0
  /-- revision set by the creator -/
  revision : ℤ := 0
  /-- the payload -/
  object : V
  deriving DecidableEq

/-- `EpochRevision`: compared by epoch first. -/
structure EpochRevision where
  /-- the epoch -/
  srcEpoch : ℤ
  /-- the revision in it -/
  revision : ℤ
  deriving DecidableEq, Repr

namespace EpochRevision

/-- The derived order: by epoch, then by revision. -/
instance : Ord EpochRevision where
  compare a b := (compare a.srcEpoch b.srcEpoch).then (compare a.revision b.revision)

instance : Std.TransOrd EpochRevision :=
  inferInstanceAs (Std.TransCmp (compareLex (compareOn EpochRevision.srcEpoch)
    (compareOn EpochRevision.revision)))

instance : Std.LawfulEqOrd EpochRevision where
  eq_of_compare {a b} h := by
    obtain ⟨hepoch, hrev⟩ := Ordering.then_eq_eq.mp h
    cases a
    cases b
    simp only [Std.LawfulEqOrd.compare_eq_iff_eq] at hepoch hrev
    rw [hepoch, hrev]

end EpochRevision

namespace DataObject

variable {V : Type}

/-- The default object. -/
def default [Inhabited V] : DataObject V where
  objType := ""
  tenant := ""
  nameSpace := ""
  name := ""
  object := Inhabited.default

/-- `DataObject::Key`: the key an object is stored under. -/
def key (o : DataObject V) : String := s!"{o.tenant}/{o.nameSpace}/{o.name}"

/-- `DataObject::CopyWithRev`. -/
def copyWithRev (o : DataObject V) (channelRev revision : ℤ) : DataObject V :=
  { o with channelRev, revision }

/-- `DataObject::EpochRevision`. -/
def epochRevision (o : DataObject V) : EpochRevision := ⟨o.srcEpoch, o.revision⟩

theorem key_toList (o : DataObject V) :
    o.key.toList = o.tenant.toList ++ '/' :: (o.nameSpace.toList ++ '/' :: o.name.toList) := by
  simp only [key, String.toList_append, List.append_assoc]
  rfl

@[simp] theorem key_copyWithRev (o : DataObject V) (c r : ℤ) :
    (o.copyWithRev c r).key = o.key := rfl

@[simp] theorem revision_copyWithRev (o : DataObject V) (c r : ℤ) :
    (o.copyWithRev c r).revision = r := rfl

@[simp] theorem channelRev_copyWithRev (o : DataObject V) (c r : ℤ) :
    (o.copyWithRev c r).channelRev = c := rfl

end DataObject

/-- What an event says about its object. -/
inductive EventType where
  | none | added | modified | deleted | initDone
  | error (msg : String)
  deriving DecidableEq, Repr

/-- An event of a watch. -/
structure WatchEvent (V : Type) where
  /-- what happened -/
  type : EventType
  /-- to which object -/
  obj : DataObject V
  deriving DecidableEq

/-- An event as the handlers of an informer get it. -/
structure DeltaEvent (V : Type) where
  /-- what happened -/
  type : EventType
  /-- is it part of the initial list? -/
  inInitialList : Bool
  /-- the object -/
  obj : DataObject V
  /-- the object it replaces -/
  oldObj : Option (DataObject V)
  deriving DecidableEq

/-- An object store, by key. -/
abbrev Objects (V : Type) : Type := BTreeMap String (DataObject V)

/-- Every object is stored under its own key. -/
def Keyed {V : Type} (m : Objects V) : Prop := ∀ (k : String)
    (o : DataObject V), m[k]? = some o → o.key = k

namespace Keyed

variable {V : Type} {m : Objects V}

theorem empty : Keyed (∅ : Objects V) := by
  intro k o h
  rw [Std.ExtTreeMap.getElem?_empty] at h
  cases h

theorem insert {o : DataObject V} {k : String} (h : Keyed m) (hk : o.key = k) :
    Keyed (m.insert k o) := by
  intro a p hp
  rw [BTreeMap.get_insert] at hp
  split at hp
  next ha =>
    obtain rfl := Option.some.inj hp
    rw [ha, hk]
  next => exact h a p hp

theorem erase {k : String} (h : Keyed m) : Keyed (m.erase k) := by
  intro a p hp
  rw [BTreeMap.get_erase] at hp
  split at hp
  next => cases hp
  next => exact h a p hp

end Keyed

end Inferx.Metastore
