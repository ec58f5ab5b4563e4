import Mathlib.Data.List.Nodup

/-!
# LRU cache

An unbounded LRU cache used as a set with a recency order: the keys, most
recently used first, without repetition. `put` moves a key to the front, `pop`
takes it out; nothing is ever dropped for lack of room.
-/

/-- The keys of an unbounded LRU cache, most recently used first. -/
structure LruCache (K : Type) where
  /-- the keys, newest first -/
  keys : List K
  /-- no key is held twice -/
  nodup : keys.Nodup
  deriving DecidableEq

namespace LruCache

variable {K : Type}

/-- The cache without entries. -/
def unbounded : LruCache K := ⟨[], List.nodup_nil⟩

instance : Membership K (LruCache K) := ⟨fun c k => k ∈ c.keys⟩

theorem mem_def {c : LruCache K} {k : K} : k ∈ c ↔ k ∈ c.keys := Iff.rfl

@[simp] theorem not_mem_unbounded (k : K) : k ∉ (unbounded : LruCache K) :=
  List.not_mem_nil

/-- The keys from the least to the most recently used one. -/
def oldestFirst (c : LruCache K) : List K := c.keys.reverse

@[simp] theorem mem_oldestFirst {c : LruCache K} {k : K} : k ∈ c.oldestFirst ↔ k ∈ c := by
  rw [oldestFirst, List.mem_reverse, mem_def]

theorem nodup_oldestFirst (c : LruCache K) : c.oldestFirst.Nodup :=
  List.nodup_reverse.mpr c.nodup

variable [DecidableEq K]

instance (k : K) (c : LruCache K) : Decidable (k ∈ c) :=
  inferInstanceAs (Decidable (k ∈ c.keys))

/-- Insert a key, or refresh it: it becomes the most recently used one. -/
def put (c : LruCache K) (k : K) : LruCache K where
  keys := k :: c.keys.erase k
  nodup := List.nodup_cons.mpr
    ⟨fun h => (c.nodup.mem_erase_iff.mp h).1 rfl, c.nodup.erase k⟩

/-- Take a key out, if it is there. -/
def pop (c : LruCache K) (k : K) : LruCache K where
  keys := c.keys.erase k
  nodup := c.nodup.erase k

@[simp] theorem mem_put {c : LruCache K} {k a : K} : a ∈ c.put k ↔ a = k ∨ a ∈ c := by
  rw [mem_def, mem_def, put, List.mem_cons, c.nodup.mem_erase_iff]
  by_cases h : a = k <;> simp [h]

@[simp] theorem mem_pop {c : LruCache K} {k a : K} : a ∈ c.pop k ↔ a ≠ k ∧ a ∈ c := by
  rw [mem_def, mem_def, pop, c.nodup.mem_erase_iff]

end LruCache
