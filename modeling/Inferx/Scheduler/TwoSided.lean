import Inferx.Lib.Nested
import Inferx.Scheduler.BiIndex

/-!
# Both sides of the index agree

The index is one partial function of two ids, stored twice: each operation does to both
sides what it does to the function, and leaves no empty inner map behind. So after any
operations both lookups are the same, and the length counts the pairs that are present.
-/

namespace Inferx

namespace BiIndex

variable {Info : Type} {b : BiIndex Info}

/-- `Len`. -/
def len (b : BiIndex Info) : ℕ := BTreeMap.total (fun _ inner => inner.size) b.byId1

/-- What the index is for: a value for some pairs of ids. -/
abbrev View (Info : Type) : Type := String → String → Option Info

/-- The operations that change the index. -/
inductive Op (Info : Type) where
  | set (id1 id2 : String) (info : Info)
  | removePair (id1 id2 : String)
  | removeById1 (id1 : String)
  | removeById2 (id2 : String)

/-- What an operation does to the view. -/
def Op.on (f : View Info) : Op Info → View Info
  | .set id1 id2 info => fun x y => if x = id1 ∧ y = id2 then some info else f x y
  | .removePair id1 id2 => fun x y => if x = id1 ∧ y = id2 then none else f x y
  | .removeById1 id1 => fun x y => if x = id1 then none else f x y
  | .removeById2 id2 => fun x y => if y = id2 then none else f x y

variable [DecidableEq Info]

def apply (b : BiIndex Info) : Op Info → BiIndex Info
  | .set id1 id2 info => (b.set id1 id2 info).2
  | .removePair id1 id2 => b.removePair id1 id2
  | .removeById1 id1 => b.removeById1 id1
  | .removeById2 id2 => b.removeById2 id2

/-- The operations one after the other, from `New`. -/
def run (ops : List (Op Info)) : BiIndex Info := ops.foldl apply {}

omit [DecidableEq Info] in
/-- The index stores the view, on both sides, without empty inner maps. -/
structure Stores (b : BiIndex Info) (f : View Info) : Prop where
  get12 : ∀ x y, b.get12 x y = f x y
  get21 : ∀ x y, b.get21 y x = f x y
  full1 : b.byId1.Full
  full2 : b.byId2.Full

variable {f : View Info} {id1 id2 : String}

omit [DecidableEq Info] in
theorem stores_new : Stores {} (fun _ _ => (none : Option Info)) where
  get12 x y := by
    show BTreeMap.getInner ∅ x y = none
    simp [BTreeMap.getInner]
  get21 x y := by
    show BTreeMap.getInner ∅ y x = none
    simp [BTreeMap.getInner]
  full1 := BTreeMap.full_empty
  full2 := BTreeMap.full_empty

theorem Stores.set {info : Info} (h : b.Stores f) :
    (b.set id1 id2 info).2.Stores (Op.on f (.set id1 id2 info)) := by
  unfold BiIndex.set
  split
  next heq =>
    -- the value is there already
    have hf : Op.on f (.set id1 id2 info) = f := by
      funext x y
      show (if x = id1 ∧ y = id2 then some info else f x y) = f x y
      split
      next hxy => rw [hxy.1, hxy.2, ← h.get12, heq]
      next => rfl
    rw [hf]
    exact h
  next =>
    refine ⟨fun x y => ?_, fun x y => ?_, h.full1.setInner, h.full2.setInner⟩
    · show (b.byId1.setInner id1 id2 info).getInner x y = if x = id1 ∧ y = id2 then some info else f x y
      rw [BTreeMap.getInner_setInner, ← h.get12]
      rfl
    · show (b.byId2.setInner id2 id1 info).getInner y x = if x = id1 ∧ y = id2 then some info else f x y
      rw [BTreeMap.getInner_setInner, ← h.get21]
      simp only [and_comm]
      rfl

omit [DecidableEq Info] in
theorem Stores.removePair (h : b.Stores f) :
    (b.removePair id1 id2).Stores (Op.on f (.removePair id1 id2)) := by
  refine ⟨fun x y => ?_, fun x y => ?_, h.full1.removeInner, h.full2.removeInner⟩
  · show (b.byId1.removeInner id1 id2).getInner x y = if x = id1 ∧ y = id2 then none else f x y
    rw [BTreeMap.getInner_removeInner, ← h.get12]
    rfl
  · show (b.byId2.removeInner id2 id1).getInner y x = if x = id1 ∧ y = id2 then none else f x y
    rw [BTreeMap.getInner_removeInner, ← h.get21]
    simp only [and_comm]
    rfl

omit [DecidableEq Info] in
/-- The index with its sides exchanged. -/
theorem Stores.swap (h : b.Stores f) : Stores ⟨b.byId2, b.byId1⟩ fun x y => f y x :=
  ⟨fun x y => h.get21 y x, fun x y => h.get12 y x, h.full2, h.full1⟩

omit [DecidableEq Info] in
theorem Stores.removeById1 (h : b.Stores f) :
    (b.removeById1 id1).Stores (Op.on f (.removeById1 id1)) := by
  unfold BiIndex.removeById1
  split
  next hid =>
    -- there is nothing to remove
    have hf : Op.on f (.removeById1 id1) = f := by
      funext x y
      show (if x = id1 then none else f x y) = f x y
      split
      next hx =>
        rw [hx, ← h.get12]
        unfold BiIndex.get12 BTreeMap.getInner
        rw [hid, Option.bind_none]
      next => rfl
    rw [hf]
    exact h
  next map2 hid =>
    refine ⟨fun x y => ?_, fun x y => ?_, h.full1.erase, h.full2.removeInner_keys⟩
    · show BTreeMap.getInner (b.byId1.erase id1) x y = if x = id1 then none else f x y
      rw [BTreeMap.getInner_erase, ← h.get12]
      rfl
    · show (map2.keys.foldl (fun m id2 => m.removeInner id2 id1) b.byId2).getInner y x =
        if x = id1 then none else f x y
      rw [BTreeMap.getInner_removeInner_keys]
      by_cases hx : x = id1
      · by_cases hy : y ∈ map2.keys
        · rw [if_pos ⟨hy, hx⟩, if_pos hx]
        · -- an id that is not among the keys has no pair with `id1`
          rw [if_neg fun hyx => hy hyx.1, if_pos hx, hx]
          refine (h.get21 id1 y).trans ((h.get12 id1 y).symm.trans ?_)
          unfold BiIndex.get12 BTreeMap.getInner
          rw [hid, Option.bind_some]
          rw [Std.ExtTreeMap.mem_keys] at hy
          exact Std.ExtTreeMap.getElem?_eq_none hy
      · rw [if_neg fun hyx => hx hyx.2, if_neg hx]
        exact h.get21 x y

omit [DecidableEq Info] in
/-- The other removal is the same one with the sides exchanged. -/
theorem removeById2_eq : b.removeById2 id2 =
    let swapped := BiIndex.removeById1 ⟨b.byId2, b.byId1⟩ id2
    ⟨swapped.byId2, swapped.byId1⟩ := by
  unfold BiIndex.removeById2 BiIndex.removeById1
  rcases hid : b.byId2[id2]? with _ | map1
  · rfl
  · rfl

omit [DecidableEq Info] in
theorem Stores.removeById2 (h : b.Stores f) :
    (b.removeById2 id2).Stores (Op.on f (.removeById2 id2)) := by
  rw [removeById2_eq]
  exact h.swap.removeById1.swap

/-- **The step.** -/
theorem Stores.apply (h : b.Stores f) (op : Op Info) : (b.apply op).Stores (op.on f) := by
  cases op with
  | set => exact h.set
  | removePair => exact h.removePair
  | removeById1 => exact h.removeById1
  | removeById2 => exact h.removeById2

/-- **The run.** -/
theorem Stores.run (ops : List (Op Info)) :
    (BiIndex.run ops).Stores (ops.foldl Op.on fun _ _ => none) := by
  have hfold : ∀ {b : BiIndex Info} {f : View Info}, b.Stores f →
      (ops.foldl BiIndex.apply b).Stores (ops.foldl Op.on f) := by
    induction ops with
    | nil => exact id
    | cons op ops ih => exact fun h => ih (h.apply op)
  exact hfold stores_new

/-- What is promised of the index. -/
structure TwoSided (b : BiIndex Info) : Prop where
  /-- both lookups are the same -/
  agree : ∀ x y, b.get12 x y = b.get21 y x
  /-- no inner map is empty -/
  full : (∀ (x : String) (inner : BTreeMap String Info), b.byId1[x]? = some inner → inner ≠ ∅) ∧
    ∀ (y : String) (inner : BTreeMap String Info), b.byId2[y]? = some inner → inner ≠ ∅
  /-- the length counts the pairs -/
  count : b.len = {p : String × String | (b.get12 p.1 p.2).isSome = true}.ncard
  /-- an id goes with all its pairs and no other -/
  removed1 : ∀ id x y, (b.removeById1 id).get12 x y = if x = id then none else b.get12 x y
  removed2 : ∀ id x y, (b.removeById2 id).get12 x y = if y = id then none else b.get12 x y
  /-- nothing changes when the value is there already -/
  same : ∀ id1 id2 info, (b.set id1 id2 info).1 = false ↔ b.get12 id1 id2 = some info

omit [DecidableEq Info] in
theorem set_eq_false [DecidableEq Info] {info : Info} :
    (b.set id1 id2 info).1 = false ↔ b.get12 id1 id2 = some info := by
  unfold BiIndex.set
  split
  next heq => exact iff_of_true rfl heq
  next hne => exact iff_of_false Bool.noConfusion hne

/-- **The index stays two-sided**, and holds what the operations say. -/
theorem twoSided_run (ops : List (Op Info)) :
    (run ops).TwoSided ∧ ∀ x y, (run ops).get12 x y = ops.foldl Op.on (fun _ _ => none) x y := by
  have h := Stores.run ops
  refine ⟨⟨fun x y => (h.get12 x y).trans (h.get21 x y).symm, ⟨h.full1, h.full2⟩,
    BTreeMap.ncard_pairs.symm, fun id x y => ?_, fun id x y => ?_, fun _ _ _ => set_eq_false⟩, h.get12⟩
  · rw [h.removeById1.get12, h.get12]
    rfl
  · rw [h.removeById2.get12, h.get12]
    rfl

end BiIndex

end Inferx
