import Inferx.Lib.Map

/-!
# The two-sided index

`BiIndex` stores one value per pair of ids, twice: under the first id and
under the second one. Each operation updates both sides and drops an inner map
that has become empty.
-/

namespace Inferx

/-- Values indexed by a pair of ids, from both sides. -/
structure BiIndex (Info : Type) where
  /-- first id, then second -/
  byId1 : BTreeMap String (BTreeMap String Info) := ∅
  /-- second id, then first -/
  byId2 : BTreeMap String (BTreeMap String Info) := ∅

namespace BiIndex

variable {Info : Type}

/-- Look up under the first id. -/
def get12 (b : BiIndex Info) (id1 id2 : String) : Option Info := b.byId1.getInner id1 id2

/-- Look up under the second id. -/
def get21 (b : BiIndex Info) (id2 id1 : String) : Option Info := b.byId2.getInner id2 id1

/-- Write a value; returns whether anything changed. -/
def set [DecidableEq Info] (b : BiIndex Info) (id1 id2 : String) (info : Info) :
    Bool × BiIndex Info :=
  if b.get12 id1 id2 = some info then (false, b)
  else
    (true, { byId1 := b.byId1.setInner id1 id2 info, byId2 := b.byId2.setInner id2 id1 info })

/-- Remove one pair. -/
def removePair (b : BiIndex Info) (id1 id2 : String) : BiIndex Info :=
  { byId1 := b.byId1.removeInner id1 id2, byId2 := b.byId2.removeInner id2 id1 }

/-- Remove all pairs with the given first id. -/
def removeById1 (b : BiIndex Info) (id1 : String) : BiIndex Info :=
  match b.byId1[id1]? with
  | none => b
  | some map2 =>
    { byId1 := b.byId1.erase id1
      byId2 := map2.keys.foldl (fun m id2 => m.removeInner id2 id1) b.byId2 }

/-- Remove all pairs with the given second id. -/
def removeById2 (b : BiIndex Info) (id2 : String) : BiIndex Info :=
  match b.byId2[id2]? with
  | none => b
  | some map1 =>
    { byId1 := map1.keys.foldl (fun m id1 => m.removeInner id1 id2) b.byId1
      byId2 := b.byId2.erase id2 }

end BiIndex

end Inferx
