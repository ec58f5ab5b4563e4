import Mathlib.Algebra.Order.BigOperators.Group.List
import Mathlib.Algebra.Order.Ring.Int
import Inferx.Lib.Runs
import Inferx.Scheduler.Allocation
import Inferx.Scheduler.Plans

/-!
# Giving back in any order

Allocations are taken from a node and given back, in any order. What is free and what
is outstanding add up to what the node had at first, part by part; the outstanding
amounts are not below zero, and so there is always room to give one of them back, and
when nothing is outstanding the node is as it was.
-/

namespace Inferx

/-- A node, and the allocations of it that have not been given back. -/
structure Lent where
  free : NodeResources
  out : List NodeResources

/-- Allocations and returns. -/
inductive LentOp where
  | alloc (req : Resources) (createSnapshot : Bool)
  | add (x : NodeResources)

/-- An allocation that succeeds, or a return of an allocation that is outstanding. -/
def Lent.next (s : Lent) : LentOp → Option Lent
  | .alloc req c =>
    match s.free.alloc req c with
    | .ok (.ok got, rest) => some ⟨rest, got :: s.out⟩
    | _ => none
  | .add x =>
    if x ∈ s.out then
      match s.free.add x with
      | .ok free => some ⟨free, s.out.erase x⟩
      | .error _ => none
    else none

/-- What has been lent can be given back or taken again, and then the node is as it was. -/
structure Restores (r : NodeResources) (s : Lent) : Prop where
  add : ∀ x ∈ s.out, ∃ free, s.free.add x = .ok free
  sub : ∀ x ∈ s.out, ∃ free, s.free.sub x = .ok free
  restored : s.out = [] → s.free = r

/-! ## What is free and what is outstanding -/

/-- An allocation of the node `r`. -/
structure LentOf (r x : NodeResources) : Prop where
  gpuType : x.gpuType = r.gpuType
  slotSize : x.gpus.slotSize = r.gpus.slotSize
  nonneg : ∀ (id : ℤ) (a : GPUAlloc), x.gpus.map[id]? = some a →
    0 ≤ a.contextCnt ∧ 0 ≤ a.slotCnt ∧ 0 ≤ a.ncclCnt
  present : ∀ (id : ℤ) (a : GPUAlloc), x.gpus.map[id]? = some a → (r.gpus.map[id]?).isSome = true

/-- The nodes differ in their amounts at most. -/
structure SameNode (r nr : NodeResources) : Prop where
  nodename : nr.nodename = r.nodename
  cpu : nr.cpu = r.cpu
  gpuType : nr.gpuType = r.gpuType
  maxContextCnt : nr.maxContextCnt = r.maxContextCnt
  totalSlotCnt : nr.gpus.totalSlotCnt = r.gpus.totalSlotCnt
  slotSize : nr.gpus.slotSize = r.gpus.slotSize
  present : ∀ id : ℤ, (nr.gpus.map[id]?).isSome = (r.gpus.map[id]?).isSome

/-- The amounts are `i64`, and no GPU has more free slots than it has slots. -/
structure NodeResources.InRange (r : NodeResources) : Prop where
  slots : r.gpus.Bounded
  memory : r.memory < 9223372036854775808
  cacheMemory : r.cacheMemory < 9223372036854775808
  gpus : ∀ (id : ℤ) (a : GPUAlloc), r.gpus.map[id]? = some a →
    a.contextCnt < 9223372036854775808 ∧ a.ncclCnt < 9223372036854775808

/-- Free and outstanding amounts add up. None that is outstanding is below zero, and where one is
outstanding the free amount is not below zero either. -/
structure Balanced (r : NodeResources) (s : Lent) : Prop where
  same : SameNode r s.free
  out : ∀ x ∈ s.out, LentOf r x
  sum : ∀ p, s.free.amount p + (s.out.map fun x => x.amount p).sum = r.amount p
  nonneg : ∀ x ∈ s.out, ∀ p, 0 ≤ x.amount p
  held : ∀ x ∈ s.out, ∀ p, 0 < x.amount p → 0 ≤ s.free.amount p

theorem GPUAlloc.ext_parts {a b : GPUAlloc} (h : a.contextCnt = b.contextCnt)
    (h' : a.slotCnt = b.slotCnt) (h'' : a.ncclCnt = b.ncclCnt) : a = b := by
  cases a
  cases b
  simp_all

namespace SameNode

variable {r nr : NodeResources}

theorem refl (r : NodeResources) : SameNode r r :=
  ⟨rfl, rfl, rfl, rfl, rfl, rfl, fun _ => rfl⟩

/-- With the same amounts, it is the node. -/
theorem eq (h : SameNode r nr) (hsum : ∀ p, nr.amount p = r.amount p) : nr = r := by
  have hmap : nr.gpus.map = r.gpus.map := by
    refine Std.ExtTreeMap.ext_getElem? fun id => ?_
    have hon : nr.gpus.on id = r.gpus.on id :=
      GPUAlloc.ext_parts (hsum (.contexts id)) (hsum (.slots id)) (hsum (.nccls id))
    have hpresent := h.present id
    unfold GPUResourceMap.on at hon
    rcases ha : nr.gpus.map[id]? with _ | a
    · rw [ha] at hpresent
      rcases hb : r.gpus.map[id]? with _ | b
      · rfl
      · rw [hb] at hpresent
        cases hpresent
    · rw [ha] at hpresent hon
      rcases hb : r.gpus.map[id]? with _ | b
      · rw [hb] at hpresent
        cases hpresent
      · rw [hb] at hon
        exact congrArg some hon
  have hmemory : nr.memory = r.memory := hsum .memory
  have hcache : nr.cacheMemory = r.cacheMemory := hsum .cacheMemory
  obtain ⟨h1, h2, h3, h4, h5, h6, -⟩ := h
  obtain ⟨n, cpu, mem, cache, ty, ⟨total, map, size⟩, ctx⟩ := nr
  obtain ⟨n', cpu', mem', cache', ty', ⟨total', map', size'⟩, ctx'⟩ := r
  simp_all

end SameNode

namespace GPUResourceMap

variable {g got left x : GPUResourceMap} {usage : GPUResource} {c : Bool} {n : ℕ}

/-- What a successful allocation takes. -/
theorem takes_of_alloc (h : g.alloc usage c = .ok (.ok got, left)) :
    ∃ k : ℕ, g.Takes (chargeOf usage c k) usage.gpuCount.toNat got left := by
  by_cases h0 : usage.gpuCount = 0
  · rw [alloc_none h0, Except.ok.injEq, Prod.mk.injEq, Except.ok.injEq] at h
    obtain ⟨rfl, rfl⟩ := h
    rw [h0]
    exact ⟨0, takes_none _⟩
  · rcases hk : g.reqSlotCnt usage.vRam with e | k
    · unfold alloc canAlloc at h
      rw [if_neg h0, hk] at h
      cases h
    · refine ⟨k, ?_⟩
      by_cases hle : usage.gpuCount.toNat ≤ (g.holding (chargeOf usage c k)).length
      · by_cases hk0 : k = 0
        · subst hk0
          rw [alloc_noSlots h0 hk hle] at h
          cases h
        · obtain ⟨got', left', halloc, htakes⟩ :=
            alloc_takes h0 hk hk0 hle (staysInRange_of_alloc h0 hk hk0 hle h)
          rw [h, Except.ok.injEq, Prod.mk.injEq, Except.ok.injEq] at halloc
          obtain ⟨rfl, rfl⟩ := halloc
          exact htakes
      · rw [alloc_few h0 hk hle] at h
        cases h

/-- What is taken and what is left are what there was. -/
theorem Takes.on {charge : GPUAlloc} (h : g.Takes charge n got left) (id : ℤ) :
    left.on id + got.on id = g.on id := by
  unfold GPUResourceMap.on
  rcases hgot : got.map[id]? with _ | a
  · rw [h.kept id hgot]
    exact GPUAlloc.ext_parts (Int.add_zero _) (Int.add_zero _) (Int.add_zero _)
  · obtain ⟨-, b, hb, -, hleft⟩ := h.taken id a hgot
    rw [hleft, hb]
    exact GPUAlloc.sub_add b a

theorem Takes.present {charge : GPUAlloc} (h : g.Takes charge n got left) (id : ℤ) :
    (left.map[id]?).isSome = (g.map[id]?).isSome := by
  rcases hgot : got.map[id]? with _ | a
  · rw [h.kept id hgot]
  · obtain ⟨-, b, hb, -, hleft⟩ := h.taken id a hgot
    rw [hleft, hb]
    rfl

/-- Taking charges from distinct GPUs that are there. -/
theorem foldlM_subEntry_ok {l : List (ℤ × GPUAlloc)} (hl : (l.map Prod.fst).Nodup)
    (h : ∀ e ∈ l, e.2.Nonneg ∧ ∃ a, g.map[e.1]? = some a ∧ a.sub e.2 = .ok (a - e.2)) :
    ∃ g', l.foldlM subEntry g = .ok g' := by
  induction l generalizing g with
  | nil => exact ⟨g, rfl⟩
  | cons e l ih =>
    rw [List.map_cons, List.nodup_cons] at hl
    obtain ⟨⟨hctx, hslot, hnccl⟩, a, ha, hsub⟩ := h e List.mem_cons_self
    have hentry : subEntry g e = .ok { g with map := g.map.insert e.1 (a - e.2) } := by
      unfold subEntry
      rw [if_neg (by omega), ha]
      exact congrArg (· >>= _) hsub
    rw [List.foldlM_cons, hentry]
    refine ih hl.2 fun e' he' => ?_
    have hne : e'.1 ≠ e.1 := fun heq => hl.1 (heq ▸ List.mem_map_of_mem he')
    rw [BTreeMap.get_insert_of_ne hne]
    exact h e' (List.mem_cons_of_mem e he')

theorem on_eq {id : ℤ} {a : GPUAlloc} (h : g.map[id]? = some a) : g.on id = a := by
  unfold GPUResourceMap.on
  rw [h]
  rfl

end GPUResourceMap

theorem NodeResources.InRange.amount_lt {r : NodeResources} (h : r.InRange) (p : Part) :
    r.amount p < 9223372036854775808 := by
  have hon : ∀ id, (r.gpus.on id).contextCnt < 9223372036854775808 ∧
      (r.gpus.on id).slotCnt < 9223372036854775808 ∧ (r.gpus.on id).ncclCnt < 9223372036854775808 := by
    intro id
    rcases ha : r.gpus.map[id]? with _ | a
    · unfold GPUResourceMap.on
      rw [ha]
      decide
    · rw [GPUResourceMap.on_eq ha]
      have hslots := h.slots id a ha
      have htotal := r.gpus.totalSlotCnt.toNat_lt
      obtain ⟨hctx, hnccl⟩ := h.gpus id a ha
      exact ⟨hctx, by omega, hnccl⟩
  cases p with
  | memory => exact h.memory
  | cacheMemory => exact h.cacheMemory
  | contexts id => exact (hon id).1
  | slots id => exact (hon id).2.1
  | nccls id => exact (hon id).2.2

namespace Balanced

variable {r : NodeResources} {s : Lent}

theorem init (r : NodeResources) : Balanced r ⟨r, []⟩ where
  same := .refl r
  out _ hx := absurd hx List.not_mem_nil
  sum _ := Int.add_zero _
  nonneg _ hx := absurd hx List.not_mem_nil
  held _ hx := absurd hx List.not_mem_nil

/-- There is room for an outstanding amount. -/
theorem room (h : Balanced r s) {x : NodeResources} (hx : x ∈ s.out) (p : Part) :
    s.free.amount p + x.amount p ≤ r.amount p := by
  have hone : x.amount p ≤ (s.out.map fun x => x.amount p).sum := by
    refine List.single_le_sum (fun n hn => ?_) _ (List.mem_map_of_mem hx)
    obtain ⟨y, hy, rfl⟩ := List.mem_map.mp hn
    exact h.nonneg y hy p
  have hsum := h.sum p
  omega

/-- An outstanding amount can be taken once more. -/
theorem again (h : Balanced r s) (hr : r.InRange) {x : NodeResources} (hx : x ∈ s.out) (p : Part) :
    subI64 (s.free.amount p) (x.amount p) = .ok (s.free.amount p - x.amount p) := by
  have hnonneg := h.nonneg x hx p
  refine subI64_eq_ok.mpr ⟨rfl, fun hpos => ?_, by omega⟩
  have hroom := h.room hx p
  have hlt := hr.amount_lt p
  have hheld := h.held x hx p hpos
  omega

/-- The GPUs of an outstanding allocation. -/
theorem entry (h : Balanced r s) {x : NodeResources} (hx : x ∈ s.out) {e : ℤ × GPUAlloc}
    (he : e ∈ x.gpus.map.toList) : e.2.Nonneg ∧ (∀ p, x.gpus.on e.1 = e.2 ∧ 0 ≤ x.amount p) ∧
      ∃ a, s.free.gpus.map[e.1]? = some a ∧ s.free.gpus.on e.1 = a := by
  have hget : x.gpus.map[e.1]? = some e.2 := BTreeMap.mem_toList.mp he
  obtain ⟨hctx, hslot, hnccl⟩ := (h.out x hx).nonneg e.1 e.2 hget
  have hpresent := (h.out x hx).present e.1 e.2 hget
  rw [← h.same.present] at hpresent
  obtain ⟨a, ha⟩ := Option.isSome_iff_exists.mp hpresent
  exact ⟨⟨hctx, hslot, hnccl⟩, fun p => ⟨GPUResourceMap.on_eq hget, h.nonneg x hx p⟩, a, ha,
    GPUResourceMap.on_eq ha⟩

/-- What is outstanding can be given back. -/
theorem add (h : Balanced r s) (hr : r.InRange) {x : NodeResources} (hx : x ∈ s.out) :
    ∃ free, s.free.add x = .ok free ∧ SameNode r free := by
  have hlent := h.out x hx
  have hentries : ∀ e ∈ x.gpus.map.toList, ∃ a, s.free.gpus.map[e.1]? = some a ∧
      GPUResourceMap.RoomFor { s.free.gpus with slotSize := r.gpus.slotSize } e.2 a := fun e he => by
    obtain ⟨hnonneg, hon, a, ha, hfree⟩ := h.entry hx he
    have hslots : s.free.amount (.slots e.1) + x.amount (.slots e.1) ≤ r.amount (.slots e.1) :=
      h.room hx (.slots e.1)
    have hctx : s.free.amount (.contexts e.1) + x.amount (.contexts e.1) ≤ r.amount (.contexts e.1) :=
      h.room hx (.contexts e.1)
    have hnccl : s.free.amount (.nccls e.1) + x.amount (.nccls e.1) ≤ r.amount (.nccls e.1) :=
      h.room hx (.nccls e.1)
    have hold := h.same.present e.1
    rw [ha] at hold
    obtain ⟨old, hold⟩ := Option.isSome_iff_exists.mp hold.symm
    have hbound := hr.slots e.1 old hold
    have hctxLt := hr.amount_lt (.contexts e.1)
    have hncclLt := hr.amount_lt (.nccls e.1)
    simp only [NodeResources.amount, hfree, (hon .memory).1, GPUResourceMap.on_eq hold]
      at hslots hctx hnccl hctxLt hncclLt
    refine ⟨a, ha, hnonneg, ?_, by omega, by omega⟩
    rw [h.same.totalSlotCnt]
    omega
  have hslotSize : (if s.free.gpus.slotSize = 0 then x.gpus.slotSize else s.free.gpus.slotSize)
      = r.gpus.slotSize := by
    rw [hlent.slotSize, h.same.slotSize, ite_self]
  obtain ⟨g, hg, ⟨htotal, hsize⟩, hother, hthese⟩ :=
    GPUResourceMap.foldlM_addEntry (g := { s.free.gpus with slotSize := r.gpus.slotSize })
      (GPUResourceMap.nodup_keys x.gpus.map) hentries
  have hpresent : ∀ id : ℤ, (g.map[id]?).isSome = (s.free.gpus.map[id]?).isSome := fun id => by
    by_cases hid : id ∈ x.gpus.map.toList.map Prod.fst
    · obtain ⟨e, he, rfl⟩ := List.mem_map.mp hid
      obtain ⟨a, ha, -⟩ := hentries e he
      rw [hthese e he a ha, ha]
      rfl
    · rw [hother id hid]
  refine ⟨{ s.free with
    gpus := g
    memory := s.free.memory + x.memory
    cacheMemory := s.free.cacheMemory + x.cacheMemory }, ?_, ?_⟩
  · have hmem : s.free.memory + x.memory ≤ r.memory := h.room hx .memory
    have hcache : s.free.cacheMemory + x.cacheMemory ≤ r.cacheMemory := h.room hx .cacheMemory
    have hmem0 : 0 ≤ x.memory := h.nonneg x hx .memory
    have hcache0 : 0 ≤ x.cacheMemory := h.nonneg x hx .cacheMemory
    have hmemLt := hr.memory
    have hcacheLt := hr.cacheMemory
    unfold NodeResources.add GPUResourceMap.add
    rw [if_pos (h.same.gpuType.trans hlent.gpuType.symm), hslotSize, hg, Except.ok_bind,
      addI64_eq_ok.mpr ⟨rfl, by omega, by omega⟩, Except.ok_bind,
      addI64_eq_ok.mpr ⟨rfl, by omega, by omega⟩]
    rfl
  · exact ⟨h.same.nodename, h.same.cpu, h.same.gpuType, h.same.maxContextCnt,
      htotal.trans h.same.totalSlotCnt, hsize, fun id => (hpresent id).trans (h.same.present id)⟩

/-- What is outstanding can be taken again. -/
theorem sub (h : Balanced r s) (hr : r.InRange) {x : NodeResources} (hx : x ∈ s.out) :
    ∃ free, s.free.sub x = .ok free := by
  obtain ⟨g, hg⟩ : ∃ g, x.gpus.map.toList.foldlM GPUResourceMap.subEntry s.free.gpus = .ok g := by
    refine GPUResourceMap.foldlM_subEntry_ok (GPUResourceMap.nodup_keys x.gpus.map) fun e he => ?_
    obtain ⟨hnonneg, hon, a, ha, hfree⟩ := h.entry hx he
    have hslots := h.again hr hx (.slots e.1)
    have hctx := h.again hr hx (.contexts e.1)
    have hnccl := h.again hr hx (.nccls e.1)
    simp only [NodeResources.amount, hfree, (hon .memory).1] at hslots hctx hnccl
    exact ⟨hnonneg, a, ha, GPUAlloc.sub_eq_ok.mpr ⟨rfl, (subI64_eq_ok.mp hslots).2,
      (subI64_eq_ok.mp hnccl).2, (subI64_eq_ok.mp hctx).2⟩⟩
  have hmem : subI64 s.free.memory x.memory = _ := h.again hr hx .memory
  have hcache : subI64 s.free.cacheMemory x.cacheMemory = _ := h.again hr hx .cacheMemory
  unfold NodeResources.sub GPUResourceMap.sub
  rw [hmem, Except.ok_bind, hcache, Except.ok_bind,
    if_pos (.inr (h.same.slotSize.trans (h.out x hx).slotSize.symm)), hg]
  exact ⟨_, rfl⟩

theorem restores (h : Balanced r s) (hr : r.InRange) : Restores r s where
  add x hx := (h.add hr hx).imp fun _ => And.left
  sub x hx := h.sub hr hx
  restored hout := h.same.eq fun p => by
    have hsum := h.sum p
    rw [hout, List.map_nil, List.sum_nil, Int.add_zero] at hsum
    exact hsum

/-- What an allocation takes is not below zero, and leaves what is not below zero where it takes
something. -/
theorem taken {free got rest : NodeResources} {req : Resources} {c : Bool} (hcast : req.Castable)
    (halloc : free.alloc req c = .ok (.ok got, rest)) (p : Part) :
    0 ≤ got.amount p ∧ (0 < got.amount p → 0 ≤ rest.amount p) ∧
      rest.amount p + got.amount p = free.amount p := by
  obtain ⟨hfits, -, gpus, left, hgpus, rfl, rfl⟩ := NodeResources.alloc_eq_ok_iff.mp halloc
  obtain ⟨k, htakes⟩ := GPUResourceMap.takes_of_alloc hgpus
  obtain ⟨-, hmem, hcache, -⟩ := NodeResources.fits_iff.mp hfits
  obtain ⟨hmemory, hcacheMemory⟩ := hcast.eq
  have hon : ∀ id, (gpus.on id).Nonneg ∧ ((left.on id).Nonneg ∨ gpus.on id = ⟨0, 0, 0⟩) := by
    intro id
    rcases ha : gpus.map[id]? with _ | a
    · have hnone : gpus.on id = ⟨0, 0, 0⟩ := by
        unfold GPUResourceMap.on
        rw [ha]
        rfl
      rw [hnone]
      exact ⟨⟨by decide, by decide, by decide⟩, .inr rfl⟩
    · obtain ⟨rfl, b, hb, ⟨hctx, hnccl, hslot⟩, hleft⟩ := htakes.taken id a ha
      rw [GPUResourceMap.on_eq ha, GPUResourceMap.on_eq hleft]
      refine ⟨GPUResourceMap.chargeOf_nonneg ?_, .inl ⟨Int.sub_nonneg_of_le hctx,
        Int.sub_nonneg_of_le hslot, Int.sub_nonneg_of_le hnccl⟩⟩
      refine hcast.contexts.resolve_left fun h0 => ?_
      -- no GPU was taken
      have hnone := htakes.count
      rw [h0] at hnone
      have hmem := BTreeMap.mem_toList.mpr ha
      rw [List.eq_nil_of_length_eq_zero hnone] at hmem
      cases hmem
  cases p with
  | memory =>
    show 0 ≤ asI64 req.memory ∧ (0 < asI64 req.memory → 0 ≤ free.memory - asI64 req.memory) ∧ _
    exact ⟨by omega, by omega, Int.sub_add_cancel ..⟩
  | cacheMemory =>
    show 0 ≤ asI64 req.cacheMemory ∧
      (0 < asI64 req.cacheMemory → 0 ≤ free.cacheMemory - asI64 req.cacheMemory) ∧ _
    exact ⟨by omega, by omega, Int.sub_add_cancel ..⟩
  | contexts id =>
    refine ⟨(hon id).1.contexts, fun hpos => ?_, congrArg GPUAlloc.contextCnt (htakes.on id)⟩
    rcases (hon id).2 with h | h
    · exact h.contexts
    · rw [show NodeResources.amount _ (.contexts id) = (gpus.on id).contextCnt from rfl, h] at hpos
      exact absurd hpos (by decide)
  | slots id =>
    refine ⟨(hon id).1.slots, fun hpos => ?_, congrArg GPUAlloc.slotCnt (htakes.on id)⟩
    rcases (hon id).2 with h | h
    · exact h.slots
    · rw [show NodeResources.amount _ (.slots id) = (gpus.on id).slotCnt from rfl, h] at hpos
      exact absurd hpos (by decide)
  | nccls id =>
    refine ⟨(hon id).1.nccls, fun hpos => ?_, congrArg GPUAlloc.ncclCnt (htakes.on id)⟩
    rcases (hon id).2 with h | h
    · exact h.nccls
    · rw [show NodeResources.amount _ (.nccls id) = (gpus.on id).ncclCnt from rfl, h] at hpos
      exact absurd hpos (by decide)

/-- An allocation of amounts that the casts keep. -/
theorem alloc (h : Balanced r s) {req : Resources} {c : Bool} {got rest : NodeResources}
    (hcast : req.Castable) (halloc : s.free.alloc req c = .ok (.ok got, rest)) :
    Balanced r ⟨rest, got :: s.out⟩ := by
  have htaken := taken hcast halloc
  obtain ⟨-, -, gpus, left, hgpus, rfl, rfl⟩ := NodeResources.alloc_eq_ok_iff.mp halloc
  obtain ⟨k, htakes⟩ := GPUResourceMap.takes_of_alloc hgpus
  obtain ⟨-, hgotSize, htotal, hsize⟩ := htakes.sizes
  have hsame := h.same
  refine ⟨⟨hsame.nodename, hsame.cpu, hsame.gpuType, hsame.maxContextCnt,
    htotal.trans hsame.totalSlotCnt, hsize.trans hsame.slotSize,
    fun id => (htakes.present id).trans (hsame.present id)⟩, ?_, fun p => ?_, ?_, ?_⟩
  · refine List.forall_mem_cons.mpr ⟨⟨hsame.gpuType, hgotSize.trans hsame.slotSize, ?_, ?_⟩, h.out⟩
    · intro id a ha
      have hctx := (htaken (.contexts id)).1
      have hslot := (htaken (.slots id)).1
      have hnccl := (htaken (.nccls id)).1
      simp only [NodeResources.amount, GPUResourceMap.on_eq ha] at hctx hslot hnccl
      exact ⟨hctx, hslot, hnccl⟩
    · intro id a ha
      obtain ⟨-, b, hb, -⟩ := htakes.taken id a ha
      rw [← hsame.present, hb]
      rfl
  · rw [List.map_cons, List.sum_cons, ← h.sum p, ← Int.add_assoc, (htaken p).2.2]
  · exact List.forall_mem_cons.mpr ⟨fun p => (htaken p).1, h.nonneg⟩
  · refine List.forall_mem_cons.mpr ⟨fun p => (htaken p).2.1, fun x hx p hpos => ?_⟩
    obtain ⟨hnonneg, hleft, hsum⟩ := htaken p
    have hheld := h.held x hx p hpos
    rcases Int.lt_or_eq_of_le hnonneg with hgot | hgot
    · exact hleft hgot
    · show 0 ≤ NodeResources.amount _ p
      rw [← hgot, Int.add_zero] at hsum
      exact hsum ▸ hheld

/-- A return. -/
theorem erase (h : Balanced r s) (hr : r.InRange) {x free : NodeResources} (hx : x ∈ s.out)
    (hadd : s.free.add x = .ok free) : Balanced r ⟨free, s.out.erase x⟩ := by
  obtain ⟨free', hadd', hsame⟩ := h.add hr hx
  obtain rfl : free' = free := Except.ok.inj (hadd'.symm.trans hadd)
  refine ⟨hsame, fun y hy => h.out y (List.mem_of_mem_erase hy), fun p => ?_,
    fun y hy => h.nonneg y (List.mem_of_mem_erase hy), fun y hy p hpos => ?_⟩
  rotate_left
  · have hheld := h.held y (List.mem_of_mem_erase hy) p hpos
    have hnonneg := h.nonneg x hx p
    have hamount := NodeResources.amount_add hadd p
    dsimp only at hamount ⊢
    omega
  have hperm := (List.perm_cons_erase hx).map fun x : NodeResources => x.amount p
  rw [NodeResources.amount_add hadd p, ← h.sum p, hperm.sum_eq, List.map_cons, List.sum_cons,
    Int.add_assoc]

end Balanced

/-- The request asks for amounts that the casts keep. -/
def LentOp.Counts : LentOp → Prop
  | .alloc req _ => req.Castable
  | .add _ => True

theorem Balanced.next {r : NodeResources} {s s' : Lent} {op : LentOp} (h : Balanced r s)
    (hr : r.InRange) (hop : op.Counts) (hnext : s.next op = some s') : Balanced r s' := by
  cases op with
  | alloc req c =>
    rcases halloc : s.free.alloc req c with e | ⟨e | got, rest⟩
    · simp only [Lent.next, halloc] at hnext
      cases hnext
    · simp only [Lent.next, halloc] at hnext
      cases hnext
    · simp only [Lent.next, halloc] at hnext
      obtain rfl := Option.some.inj hnext
      exact h.alloc hop halloc
  | add x =>
    by_cases hx : x ∈ s.out
    · rcases hadd : s.free.add x with e | free
      · simp only [Lent.next, if_pos hx, hadd] at hnext
        cases hnext
      · simp only [Lent.next, if_pos hx, hadd] at hnext
        obtain rfl := Option.some.inj hnext
        exact h.erase hr hx hadd
    · simp only [Lent.next, if_neg hx] at hnext
      cases hnext

/-- **Giving back undoes the allocations, in any order.** Whatever was allocated and given back,
what is outstanding can be given back, and with nothing outstanding the node is as it was. -/
theorem restores_of_reach {r : NodeResources} (hr : r.InRange) {s : Lent}
    (h : Reach Lent.next (fun s => s = ⟨r, []⟩) (fun _ op => op.Counts) s) : Restores r s := by
  have hbalanced : Balanced r s := by
    refine h.invariant (fun s hs => ?_) fun s op s' hs hop hnext => hs.next hr hop hnext
    rw [hs]
    exact .init r
  exact hbalanced.restores hr

/-- A node with one GPU. -/
def oneGpuNode : NodeResources :=
  { nodename := "node1"
    cpu := 1000
    memory := 4096
    gpus := GPUResourceMap.oneGpu
    maxContextCnt := 1 }

theorem oneGpuNode_inRange : oneGpuNode.InRange :=
  ⟨by decide, by decide, by decide, fun id a h => by
    rw [GPUResourceMap.oneGpu_contexts h]
    decide⟩

/-- A request for memory and a GPU. -/
def oneGpuReq (contextCount : UInt64) : Resources :=
  { memory := 1024, gpu := GPUResourceMap.oneGb contextCount }

theorem restores_of_reach_run : ∃ s s',
    Lent.next ⟨oneGpuNode, []⟩ (.alloc (oneGpuReq 1) false) = some s ∧
    s.next (.alloc { memory := 512 } true) = some s' ∧ Restores oneGpuNode s' := by
  have hrun : (Lent.next ⟨oneGpuNode, []⟩ (.alloc (oneGpuReq 1) false)).any
      (fun s => (s.next (.alloc { memory := 512 } true)).isSome) = true := by decide
  rcases hs : Lent.next ⟨oneGpuNode, []⟩ (.alloc (oneGpuReq 1) false) with _ | s
  · rw [hs] at hrun
    cases hrun
  · rw [hs, Option.any_some] at hrun
    obtain ⟨s', hs'⟩ := Option.isSome_iff_exists.mp hrun
    have hop : LentOp.Counts (.alloc (oneGpuReq 1) false) :=
      Resources.Castable.mk (by decide) (by decide) (.inr (by decide))
    have hop' : LentOp.Counts (.alloc { memory := 512 } true) :=
      Resources.Castable.mk (by decide) (by decide) (.inl rfl)
    exact ⟨s, s', rfl, hs', restores_of_reach oneGpuNode_inRange
      (.step (.step (.init rfl) hop hs) hop' hs')⟩

/-- A GPU for `2^64 - 1` contexts, which are charged as minus one. -/
theorem add_negative : ∃ s, Lent.next ⟨oneGpuNode, []⟩
    (.alloc (oneGpuReq 18446744073709551615) false)
    = some s ∧ oneGpuNode.InRange ∧ ¬ Restores oneGpuNode s := by
  have hrun : (Lent.next ⟨oneGpuNode, []⟩ (.alloc (oneGpuReq 18446744073709551615) false)).any
      (fun s => s.out.any fun x => (s.free.add x).toOption.isNone) = true := by decide
  rcases hs : Lent.next ⟨oneGpuNode, []⟩ (.alloc (oneGpuReq 18446744073709551615) false) with _ | s
  · rw [hs] at hrun
    cases hrun
  · rw [hs, Option.any_some] at hrun
    obtain ⟨x, hx, hnone⟩ := List.any_eq_true.mp hrun
    refine ⟨s, rfl, oneGpuNode_inRange, fun h => ?_⟩
    obtain ⟨free, hadd⟩ := h.add x hx
    rw [hadd] at hnone
    cases hnone

end Inferx
