import Inferx.Resource

/-!
# Allocating GPUs

The check and the allocation look for the GPUs that hold what is asked for on each,
in the order of their ids, and take the first `gpuCount` of them. What is asked for is
computed in `u64`, cast to `u32` (the slots) and to `i64` (the contexts), and compared
after the cast. A number of contexts that the cast takes below zero is charged so, and may
take what is left of a GPU out of range.
-/

namespace Inferx

/-- The GPU has the amounts left. -/
def GPUAlloc.Holds (a charge : GPUAlloc) : Prop :=
  charge.contextCnt ≤ a.contextCnt ∧ charge.ncclCnt ≤ a.ncclCnt ∧ charge.slotCnt ≤ a.slotCnt

instance (a charge : GPUAlloc) : Decidable (a.Holds charge) :=
  inferInstanceAs (Decidable (_ ∧ _ ∧ _))

/-- No amount that was not below zero is now. -/
def GPUAlloc.StaysNonneg (old new : GPUAlloc) : Prop :=
  (0 ≤ old.contextCnt → 0 ≤ new.contextCnt) ∧ (0 ≤ old.slotCnt → 0 ≤ new.slotCnt) ∧
    (0 ≤ old.ncclCnt → 0 ≤ new.ncclCnt)

namespace GPUResourceMap

/-- The slots that hold `vRam` MB. -/
def slotsFor (self : GPUResourceMap) (vRam : UInt64) : ℕ :=
  (vRam.toNat * 1024 * 1024 + self.slotSize.toNat - 1) / self.slotSize.toNat

/-- There is a size to divide by, and the sum before the division is a `u64`. -/
def Computes (self : GPUResourceMap) (vRam : UInt64) : Prop :=
  self.slotSize ≠ 0 ∧ vRam.toNat * 1024 * 1024 + self.slotSize.toNat < 18446744073709551616

/-- The GPUs that have the amounts left. -/
def holding (self : GPUResourceMap) (charge : GPUAlloc) : List ℤ :=
  (self.map.toList.filter fun e => decide (e.2.Holds charge)).map Prod.fst

/-- What is compared with each GPU, for a request of `k` slots. -/
def chargeOf (usage : GPUResource) (createSnapshot : Bool) (k : ℕ) : GPUAlloc :=
  ⟨asI64 usage.contextCount, k, ncclCnt usage createSnapshot⟩

/-- What is asked for on each GPU. -/
def need (self : GPUResourceMap) (usage : GPUResource) (createSnapshot : Bool) : GPUAlloc :=
  ⟨usage.contextCount.toNat, self.slotsFor usage.vRam, ncclCnt usage createSnapshot⟩

/-! ## Slots -/

section Slots

variable {self : GPUResourceMap} {vRam : UInt64}

theorem slotSize_pos (h : self.slotSize ≠ 0) : 0 < self.slotSize.toNat := by
  refine Nat.pos_of_ne_zero fun hzero => h ?_
  exact UInt64.toNat_inj.mp hzero

theorem reqSlotCnt_eq (h : self.Computes vRam) :
    self.reqSlotCnt vRam = .ok (self.slotsFor vRam % 4294967296) := by
  have hpos := slotSize_pos h.1
  have hpow : (2 : ℕ) ^ 64 = 18446744073709551616 := by decide
  unfold reqSlotCnt
  simp only [hpow]
  rw [if_neg (by have := h.2; omega), if_neg h.1]
  rfl

theorem reqSlotCnt_ok_iff : (∃ k, self.reqSlotCnt vRam = .ok k) ↔ self.Computes vRam := by
  have hpow : (2 : ℕ) ^ 64 = 18446744073709551616 := by decide
  constructor
  · rintro ⟨k, hk⟩
    unfold reqSlotCnt at hk
    simp only [hpow] at hk
    split at hk
    next => cases hk
    next hsum =>
      split at hk
      next => cases hk
      next hsize => exact ⟨hsize, by omega⟩
  · intro h
    exact ⟨_, reqSlotCnt_eq h⟩

/-- The slots hold what they are for. -/
theorem le_slotsFor (h : self.slotSize ≠ 0) :
    vRam.toNat * 1024 * 1024 ≤ self.slotsFor vRam * self.slotSize.toNat := by
  have hpos := slotSize_pos h
  have hlt := Nat.lt_div_mul_add hpos (a := vRam.toNat * 1024 * 1024 + self.slotSize.toNat - 1)
  unfold slotsFor
  omega

/-- One slot less does not. -/
theorem slotsFor_pred_lt (h : self.slotSize ≠ 0) (hpos : 0 < vRam.toNat) :
    self.slotsFor vRam * self.slotSize.toNat
      < vRam.toNat * 1024 * 1024 + self.slotSize.toNat := by
  have hsize := slotSize_pos h
  have hle := Nat.div_mul_le_self (vRam.toNat * 1024 * 1024 + self.slotSize.toNat - 1)
    self.slotSize.toNat
  unfold slotsFor
  omega

theorem slotsFor_pos (h : self.slotSize ≠ 0) (hpos : 0 < vRam.toNat) : 0 < self.slotsFor vRam := by
  have hsize := slotSize_pos h
  refine Nat.div_pos ?_ hsize
  omega

theorem slotsFor_zero (h : self.slotSize ≠ 0) : self.slotsFor 0 = 0 := by
  have hsize := slotSize_pos h
  refine Nat.div_eq_of_lt ?_
  have hzero : (0 : UInt64).toNat = 0 := rfl
  rw [hzero]
  omega

end Slots

/-! ## Which GPUs -/

theorem pickGpus_eq (fits : GPUAlloc → Bool) (l : List (ℤ × GPUAlloc)) {cnt : ℕ} (h : cnt ≠ 0) :
    pickGpus fits l cnt = if cnt ≤ (l.filter fun e => fits e.2).length then
      some (((l.filter fun e => fits e.2).map Prod.fst).take cnt) else none := by
  induction l generalizing cnt with
  | nil =>
    rw [if_neg (by simp [h])]
    rfl
  | cons e l ih =>
    obtain ⟨id, resource⟩ := e
    unfold pickGpus
    by_cases hfits : fits resource = true
    · rw [if_pos hfits, List.filter_cons_of_pos (p := fun e : ℤ × GPUAlloc => fits e.2) hfits,
        List.length_cons]
      by_cases hone : cnt = 1
      · rw [if_pos hone, if_pos (by omega), hone]
        rfl
      · rw [if_neg hone, ih (by omega)]
        obtain ⟨n, rfl⟩ : ∃ n, cnt = n + 1 := ⟨cnt - 1, by omega⟩
        by_cases hle : n ≤ (l.filter fun e => fits e.2).length
        · rw [Nat.add_sub_cancel, if_pos hle, if_pos (by omega)]
          rfl
        · rw [Nat.add_sub_cancel, if_neg hle, if_neg (by omega)]
          rfl
    · rw [if_neg hfits, List.filter_cons_of_neg (p := fun e : ℤ × GPUAlloc => fits e.2) hfits, ih h]

section Alloc

variable {self : GPUResourceMap} {usage : GPUResource} {c : Bool} {k : ℕ}

/-- The GPUs that are found. -/
theorem canAlloc_eq (h0 : usage.gpuCount ≠ 0) (hk : self.reqSlotCnt usage.vRam = .ok k) :
    self.canAlloc usage c = .ok (if usage.gpuCount.toNat ≤ (self.holding
      (chargeOf usage c k)).length
      then some ((self.holding (chargeOf usage c k)).take usage.gpuCount.toNat) else none) := by
  have hcnt : usage.gpuCount.toNat ≠ 0 := fun h => h0 (UInt64.toNat_inj.mp h)
  have hfits : (fun e : ℤ × GPUAlloc => decide (asI64 usage.contextCount ≤ e.2.contextCnt)
      && decide (ncclCnt usage c ≤ e.2.ncclCnt) && decide ((k : ℤ) ≤ e.2.slotCnt))
      = fun e => decide (e.2.Holds (chargeOf usage c k)) := by
    funext e
    rw [Bool.eq_iff_iff, decide_eq_true_iff]
    simp [GPUAlloc.Holds, chargeOf, and_assoc]
  unfold canAlloc
  rw [if_neg h0, hk, Except.ok_bind, pickGpus_eq _ _ hcnt, hfits]
  unfold holding
  rw [List.length_map]
  rfl

theorem mem_holding {charge : GPUAlloc} {id : ℤ} :
    id ∈ self.holding charge ↔ ∃ a, self.map[id]? = some a ∧ a.Holds charge := by
  unfold holding
  rw [List.mem_map]
  constructor
  · rintro ⟨e, he, rfl⟩
    obtain ⟨hmem, hholds⟩ := List.mem_filter.mp he
    exact ⟨e.2, BTreeMap.mem_toList.mp hmem, of_decide_eq_true hholds⟩
  · rintro ⟨a, ha, hholds⟩
    exact ⟨(id, a), List.mem_filter.mpr ⟨BTreeMap.mem_toList.mpr ha, decide_eq_true hholds⟩, rfl⟩

theorem nodup_holding (charge : GPUAlloc) : (self.holding charge).Nodup :=
  (nodup_keys self.map).sublist (List.filter_sublist.map Prod.fst)

/-- What is left of each of the GPUs is in range. -/
def StaysInRange (self : GPUResourceMap) (charge : GPUAlloc) (ids : List ℤ) : Prop :=
  ∀ id ∈ ids, ∀ a, self.map[id]? = some a → charge.contextCnt < 0 →
    a.contextCnt - charge.contextCnt < 9223372036854775808

theorem ncclCnt_nonneg (usage : GPUResource) (c : Bool) : 0 ≤ ncclCnt usage c := by
  unfold ncclCnt
  split
  · decide
  · split <;> decide

/-- A charge of contexts that the cast keeps is not below zero. -/
theorem chargeOf_nonneg (h : usage.contextCount.toNat < 9223372036854775808) :
    (chargeOf usage c k).Nonneg := by
  have hpow : (2 : ℕ) ^ 63 = 9223372036854775808 := by decide
  refine ⟨?_, Int.natCast_nonneg k, ncclCnt_nonneg usage c⟩
  show 0 ≤ asI64 usage.contextCount
  rw [asI64_eq, hpow, if_pos h]
  exact Int.natCast_nonneg _

theorem staysInRange_of_lt {ids : List ℤ}
    (h : usage.contextCount.toNat < 9223372036854775808) :
    self.StaysInRange (chargeOf usage c k) ids := by
  intro id _ a _ hneg
  have hnonneg := (chargeOf_nonneg (c := c) (k := k) h).contexts
  omega

/-- Charging a GPU that has the amounts. -/
theorem sub_eq_of_holds {a : GPUAlloc} (h : a.Holds (chargeOf usage c k))
    (hrange : asI64 usage.contextCount < 0 →
      a.contextCnt - asI64 usage.contextCount < 9223372036854775808) :
    a.sub (chargeOf usage c k) = .ok (a - chargeOf usage c k) := by
  obtain ⟨hctx, hnccl, hslot⟩ := h
  have hk : 0 ≤ (chargeOf usage c k).slotCnt := Int.natCast_nonneg k
  have hn : 0 ≤ (chargeOf usage c k).ncclCnt := ncclCnt_nonneg usage c
  exact GPUAlloc.sub_eq_ok.mpr ⟨rfl, ⟨by omega, by omega⟩, ⟨by omega, by omega⟩, by omega, hrange⟩

/-- What is taken, and what is left. -/
theorem takeGpus_eq {charge : GPUAlloc} {ids : List ℤ} {map : BTreeMap ℤ GPUAlloc}
    (hids : ids.Nodup)
    (h : ∀ id ∈ ids, ∃ a, self.map[id]? = some a ∧ a.sub charge = .ok (a - charge)) :
    ∃ map' self', takeGpus charge ids self map = .ok (map', self') ∧
      (self'.totalSlotCnt = self.totalSlotCnt ∧ self'.slotSize = self.slotSize) ∧
      (∀ id, map'[id]? = if id ∈ ids then some charge else map[id]?) ∧
      ∀ id, self'.map[id]? = if id ∈ ids then self.map[id]?.map (· - charge)
      else self.map[id]? := by
  induction ids generalizing self map with
  | nil => exact ⟨map, self, rfl, ⟨rfl, rfl⟩, fun id => rfl, fun id => rfl⟩
  | cons gpu ids ih =>
    obtain ⟨hgpu, hids⟩ := List.nodup_cons.mp hids
    obtain ⟨a, ha, hsub⟩ := h gpu List.mem_cons_self
    have hrest : ∀ id ∈ ids, ∃ b, (self.map.insert gpu (a - charge))[id]? = some b ∧
        b.sub charge = .ok (b - charge) := fun id hid => by
      have hne : id ≠ gpu := fun heq => hgpu (heq ▸ hid)
      rw [BTreeMap.get_insert_of_ne hne]
      exact h id (List.mem_cons_of_mem gpu hid)
    obtain ⟨map', self', htake, hsizes, hmap, hself⟩ :=
      @ih { self with map := self.map.insert gpu (a - charge) } (map.insert gpu charge) hids hrest
    refine ⟨map', self', ?_, hsizes, fun id => ?_, fun id => ?_⟩
    · unfold takeGpus
      rw [ha]
      exact (congrArg (· >>= _) hsub).trans htake
    · rw [hmap, BTreeMap.get_insert]
      by_cases hid : id = gpu
      · subst hid
        rw [if_neg hgpu, if_pos rfl, if_pos List.mem_cons_self]
      · simp [hid]
    · rw [hself, BTreeMap.get_insert]
      by_cases hid : id = gpu
      · subst hid
        rw [if_neg hgpu, if_pos rfl, if_pos List.mem_cons_self, ha, Option.map_some]
      · simp [hid]

/-- GPUs that are charged stay in range. -/
theorem staysInRange_of_takeGpus {charge : GPUAlloc} {ids : List ℤ}
    {map : BTreeMap ℤ GPUAlloc} {taken : BTreeMap ℤ GPUAlloc × GPUResourceMap}
    (hids : ids.Nodup) (h : takeGpus charge ids self map = .ok taken) :
    self.StaysInRange charge ids := by
  induction ids generalizing self map with
  | nil => exact fun _ hid => absurd hid List.not_mem_nil
  | cons gpu ids ih =>
    obtain ⟨hgpu, hids⟩ := List.nodup_cons.mp hids
    unfold takeGpus at h
    intro id hid a ha
    rcases hg : self.map[gpu]? with _ | r
    · rw [hg] at h
      cases h
    · rw [hg] at h
      obtain ⟨r', hsub, h⟩ := Except.bind_eq_ok.mp h
      rcases List.mem_cons.mp hid with rfl | hid
      · obtain rfl := Option.some.inj (ha.symm.trans hg)
        exact (GPUAlloc.sub_eq_ok.mp hsub).2.2.2.2
      · have hne : id ≠ gpu := fun heq => hgpu (heq ▸ hid)
        refine ih hids h id hid a ?_
        rw [BTreeMap.get_insert_of_ne hne, ha]

/-- The amounts `charge` of `n` GPUs that had them are taken, and nothing else. -/
structure Takes (g : GPUResourceMap) (charge : GPUAlloc) (n : ℕ) (got left : GPUResourceMap) :
    Prop where
  count : got.map.toList.length = n
  taken : ∀ (id : ℤ) (a : GPUAlloc), got.map[id]? = some a →
    a = charge ∧ ∃ b, g.map[id]? = some b ∧ b.Holds charge ∧ left.map[id]? = some (b - a)
  kept : ∀ id : ℤ, got.map[id]? = none → left.map[id]? = g.map[id]?
  sizes : got.totalSlotCnt = g.totalSlotCnt ∧ got.slotSize = g.slotSize ∧
    left.totalSlotCnt = g.totalSlotCnt ∧ left.slotSize = g.slotSize

/-- A map of the keys `ids` has as many entries. -/
theorem length_toList {m : BTreeMap ℤ GPUAlloc} {ids : List ℤ} (hids : ids.Nodup)
    (h : ∀ id, id ∈ ids ↔ ∃ a, m[id]? = some a) : m.toList.length = ids.length := by
  have hperm : (m.toList.map Prod.fst).Perm ids := by
    refine (List.perm_ext_iff_of_nodup (nodup_keys m) hids).mpr fun id => ?_
    rw [h, List.mem_map]
    constructor
    · rintro ⟨e, he, rfl⟩
      exact ⟨e.2, BTreeMap.mem_toList.mp he⟩
    · rintro ⟨a, ha⟩
      exact ⟨(id, a), BTreeMap.mem_toList.mpr ha, rfl⟩
  rw [← hperm.length_eq, List.length_map]

/-- An allocation of no GPUs. -/
theorem alloc_none (h0 : usage.gpuCount = 0) : self.alloc usage c
    = .ok (.ok { totalSlotCnt := self.totalSlotCnt, slotSize := self.slotSize }, self) := by
  unfold alloc canAlloc
  rw [if_pos h0, Except.ok_bind]
  simp only [if_pos h0]
  rfl

/-- An allocation that finds too few GPUs. -/
theorem alloc_few (h0 : usage.gpuCount ≠ 0) (hk : self.reqSlotCnt usage.vRam = .ok k)
    (h : ¬ usage.gpuCount.toNat ≤ (self.holding (chargeOf usage c k)).length) :
    self.alloc usage c = .ok (.error (.schedulerNoEnoughResource ""), self) := by
  unfold alloc
  rw [canAlloc_eq h0 hk, if_neg h]
  rfl

/-- An allocation of no slots. -/
theorem alloc_noSlots (h0 : usage.gpuCount ≠ 0) (hk : self.reqSlotCnt usage.vRam = .ok 0)
    (h : usage.gpuCount.toNat ≤ (self.holding (chargeOf usage c 0)).length) :
    self.alloc usage c = .error .gpuAllocNoSlots := by
  unfold alloc
  rw [canAlloc_eq h0 hk, if_pos h, Except.ok_bind]
  simp only [if_neg h0, hk, Except.ok_bind]
  rfl

/-- An allocation that finds its GPUs. -/
theorem alloc_takes (h0 : usage.gpuCount ≠ 0)
    (hk : self.reqSlotCnt usage.vRam = .ok k) (hk0 : k ≠ 0)
    (h : usage.gpuCount.toNat ≤ (self.holding (chargeOf usage c k)).length)
    (hrange : self.StaysInRange (chargeOf usage c k)
      ((self.holding (chargeOf usage c k)).take usage.gpuCount.toNat)) :
    ∃ got left, self.alloc usage c = .ok (.ok got, left) ∧
      self.Takes (chargeOf usage c k) usage.gpuCount.toNat got left := by
  have hnodup : (self.holding (chargeOf usage c k)).Nodup := nodup_holding _
  have hmem : ∀ id ∈ (self.holding (chargeOf usage c k)).take usage.gpuCount.toNat,
      ∃ a, self.map[id]? = some a ∧ a.Holds (chargeOf usage c k) :=
    fun id hid => mem_holding.mp (List.mem_of_mem_take hid)
  obtain ⟨map', left, htake, hsizes, hmap, hleft⟩ :=
    @takeGpus_eq self (chargeOf usage c k) _ ∅ (hnodup.sublist (List.take_sublist _ _))
      fun id hid => (hmem id hid).imp fun a ⟨ha, hholds⟩ =>
        ⟨ha, sub_eq_of_holds hholds (hrange id hid a ha)⟩
  have hgot : ∀ id, map'[id]? = if id ∈ (self.holding
    (chargeOf usage c k)).take usage.gpuCount.toNat
      then some (chargeOf usage c k) else none := fun id => by
    rw [hmap, Std.ExtTreeMap.getElem?_empty]
  refine ⟨{ totalSlotCnt := self.totalSlotCnt, map := map', slotSize := self.slotSize }, left, ?_,
    ?_, fun id a ha => ?_, fun id hid => ?_, rfl, rfl, hsizes⟩
  · have hcharge : (⟨asI64 usage.contextCount, k, ncclCnt usage c⟩ : GPUAlloc)
      = chargeOf usage c k :=
      rfl
    unfold alloc
    rw [canAlloc_eq h0 hk, if_pos h, Except.ok_bind]
    simp only [if_neg h0, hk, Except.ok_bind, if_neg hk0]
    rw [hcharge, htake]
    rfl
  · have hlen := length_toList (m := map')
      (hnodup.sublist (List.take_sublist usage.gpuCount.toNat _))
      fun id => by rw [hgot]; split <;> simp_all
    rw [hlen, List.length_take, Nat.min_eq_left h]
  · rw [hgot] at ha
    split at ha
    next hid =>
      obtain ⟨b, hb, hholds⟩ := hmem id hid
      refine ⟨(Option.some.inj ha).symm, b, hb, hholds, ?_⟩
      rw [hleft, if_pos hid, hb, ← Option.some.inj ha]
      rfl
    next => cases ha
  · rw [hgot] at hid
    split at hid
    next => cases hid
    next hid' => rw [hleft, if_neg hid']

/-- An allocation that finds its GPUs returns them, unless it panics. -/
theorem alloc_found {res : Except Error GPUResourceMap} {left : GPUResourceMap}
    (h0 : usage.gpuCount ≠ 0) (hk : self.reqSlotCnt usage.vRam = .ok k) (hk0 : k ≠ 0)
    (h : usage.gpuCount.toNat ≤ (self.holding (chargeOf usage c k)).length)
    (halloc : self.alloc usage c = .ok (res, left)) : ∃ got, res = .ok got := by
  unfold alloc at halloc
  rw [canAlloc_eq h0 hk, if_pos h, Except.ok_bind] at halloc
  simp only [if_neg h0, hk, Except.ok_bind, if_neg hk0] at halloc
  obtain ⟨taken, -, halloc⟩ := Except.bind_eq_ok.mp halloc
  exact ⟨_, (Prod.mk.inj (Except.ok.inj halloc)).1.symm⟩

/-- An allocation that finds its GPUs leaves them in range. -/
theorem staysInRange_of_alloc {got left : GPUResourceMap} (h0 : usage.gpuCount ≠ 0)
    (hk : self.reqSlotCnt usage.vRam = .ok k) (hk0 : k ≠ 0)
    (h : usage.gpuCount.toNat ≤ (self.holding (chargeOf usage c k)).length)
    (halloc : self.alloc usage c = .ok (.ok got, left)) :
    self.StaysInRange (chargeOf usage c k)
      ((self.holding (chargeOf usage c k)).take usage.gpuCount.toNat) := by
  unfold alloc at halloc
  rw [canAlloc_eq h0 hk, if_pos h, Except.ok_bind] at halloc
  simp only [if_neg h0, hk, Except.ok_bind, if_neg hk0] at halloc
  obtain ⟨taken, htaken, -⟩ := Except.bind_eq_ok.mp halloc
  exact staysInRange_of_takeGpus ((nodup_holding _).sublist (List.take_sublist _ _)) htaken

end Alloc

/-! ## Sound and complete -/

/-- Enough GPUs have what is asked for. -/
def Enough (self : GPUResourceMap) (usage : GPUResource) (createSnapshot : Bool) : Prop :=
  usage.gpuCount.toNat ≤ (self.holding (self.need usage createSnapshot)).length

/-- The check and the allocation find GPUs exactly if there are enough, the allocation takes
what is asked for of as many GPUs as are asked for, and no amount gets below zero. -/
structure AllocatesExactly (g : GPUResourceMap) (usage : GPUResource) (c : Bool) : Prop where
  check : ∃ ids, g.canAlloc usage c = .ok ids ∧ (ids.isSome = true ↔ g.Enough usage c)
  serves : (∃ got left, g.alloc usage c = .ok (.ok got, left)) ↔ g.Enough usage c
  fails : ¬ g.Enough usage c → ∃ e, g.alloc usage c = .ok (.error e, g)
  takes : ∀ got left, g.alloc usage c = .ok (.ok got, left) →
    g.Takes (g.need usage c) usage.gpuCount.toNat got left
  nonneg : ∀ got left, g.alloc usage c = .ok (.ok got, left) → ∀ (id : ℤ) (a b : GPUAlloc),
    g.map[id]? = some a → left.map[id]? = some b → a.StaysNonneg b

section Exact

variable {self got left : GPUResourceMap} {usage : GPUResource} {c : Bool} {n : ℕ}

theorem Takes.nonneg {charge : GPUAlloc} (h : self.Takes charge n got left) {id : ℤ}
    {a b : GPUAlloc}
    (ha : self.map[id]? = some a) (hb : left.map[id]? = some b) : a.StaysNonneg b := by
  rcases hgot : got.map[id]? with _ | x
  · rw [h.kept id hgot, ha, Option.some.injEq] at hb
    rw [hb]
    exact ⟨fun h => h, fun h => h, fun h => h⟩
  · obtain ⟨rfl, a', ha', ⟨hctx, hnccl, hslot⟩, hleft⟩ := h.taken id x hgot
    obtain rfl : a' = a := Option.some.inj (ha'.symm.trans ha)
    obtain rfl : a' - x = b := Option.some.inj (hleft.symm.trans hb)
    exact ⟨fun _ => Int.sub_nonneg_of_le hctx, fun _ => Int.sub_nonneg_of_le hslot,
      fun _ => Int.sub_nonneg_of_le hnccl⟩

theorem takes_none (charge : GPUAlloc) :
    self.Takes charge 0 { totalSlotCnt := self.totalSlotCnt, slotSize := self.slotSize } self := by
  refine ⟨by rfl, fun id a ha => ?_, fun _ _ => rfl, rfl, rfl, rfl, rfl⟩
  rw [Std.ExtTreeMap.getElem?_empty] at ha
  cases ha

/-- Who has more has enough. -/
theorem length_holding_le {charge charge' : GPUAlloc}
    (h : ∀ a : GPUAlloc, a.Holds charge → a.Holds charge') :
    (self.holding charge).length ≤ (self.holding charge').length := by
  unfold holding
  rw [List.length_map, List.length_map]
  refine (List.monotone_filter_right _ fun e he => ?_).length_le
  exact decide_eq_true (h e.2 (of_decide_eq_true he))

theorem asI64_le (x : UInt64) : asI64 x ≤ x.toNat := by
  rw [asI64_eq]
  split <;> omega

/-- A request that asks for what it says. -/
theorem chargeOf_eq_need (h : usage.contextCount.toNat < 9223372036854775808) :
    chargeOf usage c (self.slotsFor usage.vRam) = self.need usage c := by
  have hpow : (2 : ℕ) ^ 63 = 9223372036854775808 := by decide
  unfold chargeOf need
  rw [asI64_eq, hpow, if_pos h]

theorem enough_of_none (h0 : usage.gpuCount = 0) : self.Enough usage c := by
  unfold Enough
  rw [h0]
  exact Nat.zero_le _

theorem allocatesExactly_none (h0 : usage.gpuCount = 0) : self.AllocatesExactly usage c := by
  have henough : self.Enough usage c := enough_of_none h0
  have halloc : self.alloc usage c = _ := alloc_none h0
  have htakes : self.Takes (self.need usage c) 0 _ self := takes_none _
  have heq : ∀ got left, self.alloc usage c = .ok (.ok got, left) →
      { totalSlotCnt := self.totalSlotCnt, slotSize := self.slotSize } = got ∧ self = left :=
    fun got left h => by
      rw [halloc, Except.ok.injEq, Prod.mk.injEq, Except.ok.injEq] at h
      exact h
  refine ⟨⟨some [], ?_, fun _ => henough, fun _ => rfl⟩,
    ⟨fun _ => henough, fun _ => ⟨_, _, halloc⟩⟩,
    fun h => absurd henough h, fun got left h => ?_, fun got left h id a b ha hb => ?_⟩
  · unfold canAlloc
    rw [if_pos h0]
  · obtain ⟨rfl, rfl⟩ := heq got left h
    rw [h0]
    exact htakes
  · obtain ⟨rfl, rfl⟩ := heq got left h
    exact htakes.nonneg ha hb

/-- There are not enough GPUs, and none are found. -/
theorem allocatesExactly_of_not {e : Error} (hnot : ¬ self.Enough usage c)
    (hcheck : self.canAlloc usage c = .ok none)
    (halloc : self.alloc usage c = .ok (.error e, self)) :
    self.AllocatesExactly usage c := by
  have hserves : ∀ got left, self.alloc usage c ≠ .ok (.ok got, left) := fun got left h => by
    rw [halloc] at h
    cases h
  refine ⟨⟨none, hcheck, ?_⟩, ?_, fun _ => ⟨e, halloc⟩,
    fun got left h => absurd h (hserves got left),
    fun got left h => absurd h (hserves got left)⟩
  · constructor
    · intro h
      cases h
    · intro h
      exact absurd h hnot
  · constructor
    · rintro ⟨got, left, h⟩
      exact absurd h (hserves got left)
    · intro h
      exact absurd h hnot

/-- An allocation of what is asked for is found exactly if there are enough GPUs. -/
theorem allocatesExactly_of_need (h0 : usage.gpuCount ≠ 0)
    (hk : self.reqSlotCnt usage.vRam = .ok (self.slotsFor usage.vRam))
    (hk0 : self.slotsFor usage.vRam ≠ 0)
    (hcount : usage.contextCount.toNat < 9223372036854775808) :
    self.AllocatesExactly usage c := by
  have hneed : chargeOf usage c (self.slotsFor usage.vRam) = self.need usage c :=
    chargeOf_eq_need hcount
  have hcheck := canAlloc_eq (c := c) h0 hk
  rw [hneed] at hcheck
  by_cases henough : self.Enough usage c
  · obtain ⟨got, left, halloc, htakes⟩ :=
      alloc_takes h0 hk hk0 (c := c) (by rw [hneed]; exact henough) (staysInRange_of_lt hcount)
    rw [hneed] at htakes
    have heq : ∀ got' left', self.alloc usage c = .ok (.ok got', left') → got = got' ∧
      left = left' :=
      fun got' left' h => by
        rw [halloc, Except.ok.injEq, Prod.mk.injEq, Except.ok.injEq] at h
        exact h
    refine ⟨⟨_, hcheck, ?_⟩, ⟨fun _ => henough, fun _ => ⟨_, _, halloc⟩⟩, fun h => absurd henough h,
      fun got' left' h => ?_, fun got' left' h id a b ha hb => ?_⟩
    · rw [if_pos (show usage.gpuCount.toNat ≤ _ from henough)]
      exact ⟨fun _ => henough, fun _ => rfl⟩
    · obtain ⟨rfl, rfl⟩ := heq got' left' h
      exact htakes
    · obtain ⟨rfl, rfl⟩ := heq got' left' h
      exact htakes.nonneg ha hb
  · have hfew : ¬ usage.gpuCount.toNat
        ≤ (self.holding (chargeOf usage c (self.slotsFor usage.vRam))).length := by
      rw [hneed]
      exact henough
    rw [if_neg (show ¬ usage.gpuCount.toNat ≤ _ from henough)] at hcheck
    exact allocatesExactly_of_not henough hcheck (alloc_few h0 hk hfew)

/-- Too few GPUs have as much as is compared. -/
theorem allocatesExactly_of_few (h0 : usage.gpuCount ≠ 0)
    (hk : self.reqSlotCnt usage.vRam = .ok (self.slotsFor usage.vRam))
    (h : (self.holding (chargeOf usage c
      (self.slotsFor usage.vRam))).length < usage.gpuCount.toNat) :
    self.AllocatesExactly usage c := by
  have hholds : ∀ a : GPUAlloc, a.Holds (self.need usage c) →
      a.Holds (chargeOf usage c (self.slotsFor usage.vRam)) := fun a ⟨hctx, hrest⟩ =>
    ⟨Int.le_trans (asI64_le usage.contextCount) hctx, hrest⟩
  have hnot : ¬ self.Enough usage c := fun henough =>
    Nat.not_lt.mpr (Nat.le_trans henough (length_holding_le hholds)) h
  have hcheck := canAlloc_eq (c := c) h0 hk
  rw [if_neg (Nat.not_le.mpr h)] at hcheck
  exact allocatesExactly_of_not hnot hcheck (alloc_few h0 hk (Nat.not_le.mpr h))

/-- **GPU allocation is sound and complete** exactly if nothing is asked for, or the sum of the
sizes is a `u64` and the contexts are an `i64`, or too few GPUs have the rest. -/
theorem allocatesExactly_iff (hsize : self.slotSize ≠ 0) (hvRam : usage.vRam ≠ 0)
    (hslots : self.slotsFor usage.vRam < 4294967296)
    (hctx : ∀ (id : ℤ) (a : GPUAlloc), self.map[id]? = some a →
      a.contextCnt < 9223372036854775808) :
    self.AllocatesExactly usage c ↔ usage.gpuCount = 0 ∨
      usage.vRam.toNat * 1024 * 1024 + self.slotSize.toNat < 18446744073709551616 ∧
      (usage.contextCount.toNat < 9223372036854775808 ∨
        (self.holding (chargeOf usage c (self.slotsFor usage.vRam))).length
          < usage.gpuCount.toNat) := by
  by_cases h0 : usage.gpuCount = 0
  · exact ⟨fun _ => .inl h0, fun _ => allocatesExactly_none h0⟩
  · have hpos : 0 < usage.vRam.toNat := Nat.pos_of_ne_zero fun h => hvRam (UInt64.toNat_inj.mp h)
    have hk0 : self.slotsFor usage.vRam ≠ 0 := Nat.ne_of_gt (slotsFor_pos hsize hpos)
    have hk : self.Computes usage.vRam →
        self.reqSlotCnt usage.vRam = .ok (self.slotsFor usage.vRam) := fun h => by
      rw [reqSlotCnt_eq h, Nat.mod_eq_of_lt hslots]
    constructor
    · intro h
      obtain ⟨ids, hids, hiff⟩ := h.check
      have hcomputes : self.Computes usage.vRam := by
        unfold canAlloc at hids
        rw [if_neg h0] at hids
        obtain ⟨k, hk, -⟩ := Except.bind_eq_ok.mp hids
        exact reqSlotCnt_ok_iff.mp ⟨k, hk⟩
      refine .inr ⟨hcomputes.2, ?_⟩
      by_cases hcount : usage.contextCount.toNat < 9223372036854775808
      · exact .inl hcount
      · refine .inr (Nat.lt_of_not_ge fun hle => ?_)
        -- no GPU has that many contexts
        have hnone : self.holding (self.need usage c) = [] := by
          refine List.eq_nil_iff_forall_not_mem.mpr fun id hid => ?_
          obtain ⟨a, ha, hholds, -⟩ := mem_holding.mp hid
          have hlt := hctx id a ha
          have hcontexts : ((self.need usage c).contextCnt : ℤ) = usage.contextCount.toNat := rfl
          omega
        rw [canAlloc_eq h0 (hk hcomputes), if_pos hle, Except.ok.injEq] at hids
        have henough : usage.gpuCount.toNat ≤ (self.holding (self.need usage c)).length :=
          hiff.mp (by rw [← hids]; rfl)
        rw [hnone] at henough
        exact h0 (UInt64.toNat_inj.mp (Nat.le_zero.mp henough))
    · rintro (h | ⟨hsum, hrest⟩)
      · exact absurd h h0
      · have hk := hk ⟨hsize, hsum⟩
        rcases hrest with hcount | hfew
        · exact allocatesExactly_of_need h0 hk hk0 hcount
        · exact allocatesExactly_of_few h0 hk hfew

end Exact

/-- One GPU of 16 slots of 256 MB, with one context. -/
def oneGpu : GPUResourceMap :=
  { totalSlotCnt := 16, map := (∅ : BTreeMap ℤ GPUAlloc).insert 0 ⟨1, 16, 1⟩,
    slotSize := 268435456 }

/-- A request for `contextCount` contexts on a GPU and 1 GB. -/
def oneGb (contextCount : UInt64) : GPUResource :=
  { gpuCount := 1, vRam := 1024, contextCount }

theorem oneGpu_contexts {id : ℤ} {a : GPUAlloc} (h : oneGpu.map[id]? = some a) :
    a = ⟨1, 16, 1⟩ := by
  unfold oneGpu at h
  rw [BTreeMap.get_insert, Std.ExtTreeMap.getElem?_empty] at h
  split at h
  next => exact (Option.some.inj h).symm
  next => cases h

theorem allocatesExactly_run : oneGpu.AllocatesExactly (oneGb 1) false :=
  (allocatesExactly_iff (by decide) (by decide) (by decide) fun id a h => by
    rw [oneGpu_contexts h]
    decide).mpr (.inr ⟨by decide, .inl (by decide)⟩)

/-- `2^63` contexts are a negative `i64`. -/
theorem alloc_negative : oneGpu.slotSize ≠ 0 ∧ oneGpu.slotsFor 1024 = 4 ∧
    ¬ oneGpu.AllocatesExactly (oneGb 9223372036854775808) false := by
  refine ⟨by decide, by decide, fun h => ?_⟩
  obtain ⟨ids, hids, hiff⟩ := h.check
  have hfound : oneGpu.canAlloc (oneGb 9223372036854775808) false = .ok (some [0]) := by decide
  rw [hfound, Except.ok.injEq] at hids
  have henough := hiff.mp (by rw [← hids]; rfl)
  revert henough
  unfold Enough
  decide

/-! ## Slots that cover the request -/

/-- The check and the allocation end, and the slots that they grant hold what is asked for. -/
structure SlotsCover (g : GPUResourceMap) (usage : GPUResource) (c : Bool) : Prop where
  check : ∃ ids, g.canAlloc usage c = .ok ids
  alloc : ∃ res left, g.alloc usage c = .ok (res, left)
  checkCovers : ∀ id ids, g.canAlloc usage c = .ok (some (id :: ids)) →
    ∃ k, g.reqSlotCnt usage.vRam = .ok k ∧ usage.vRam.toNat * 1024 * 1024 ≤ k * g.slotSize.toNat
  allocCovers : ∀ got left, g.alloc usage c = .ok (.ok got, left) → ∀ (id : ℤ) (a : GPUAlloc),
    got.map[id]? = some a → (usage.vRam.toNat * 1024 * 1024 : ℤ) ≤ a.slotCnt * g.slotSize.toNat

section Cover

variable {g : GPUResourceMap} {usage : GPUResource} {c : Bool}

theorem slotsCover_none (h0 : usage.gpuCount = 0) : g.SlotsCover usage c := by
  have hcheck : g.canAlloc usage c = .ok (some []) := by
    unfold canAlloc
    rw [if_pos h0]
  refine ⟨⟨_, hcheck⟩, ⟨_, _, alloc_none h0⟩, fun id ids h => ?_, fun got left h id a ha => ?_⟩
  · rw [hcheck] at h
    cases h
  · rw [alloc_none h0, Except.ok.injEq, Prod.mk.injEq, Except.ok.injEq] at h
    rw [← h.1, Std.ExtTreeMap.getElem?_empty] at ha
    cases ha

theorem slotsCover_few {k : ℕ} (h0 : usage.gpuCount ≠ 0) (hk : g.reqSlotCnt usage.vRam = .ok k)
    (h : (g.holding (chargeOf usage c k)).length < usage.gpuCount.toNat) :
    g.SlotsCover usage c := by
  have hcheck := canAlloc_eq (c := c) h0 hk
  rw [if_neg (Nat.not_le.mpr h)] at hcheck
  have halloc := alloc_few h0 hk (Nat.not_le.mpr h)
  refine ⟨⟨_, hcheck⟩, ⟨_, _, halloc⟩, fun id ids h' => ?_, fun got left h' => ?_⟩
  · rw [hcheck] at h'
    cases h'
  · rw [halloc] at h'
    cases h'

/-- The GPUs that have what is compared, as many as are asked for, stay in range. -/
def ContextsInRange (g : GPUResourceMap) (usage : GPUResource) (c : Bool) : Prop :=
  g.StaysInRange (chargeOf usage c (g.slotsFor usage.vRam % 4294967296))
    ((g.holding (chargeOf usage c (g.slotsFor usage.vRam % 4294967296))).take usage.gpuCount.toNat)

/-- All of the slots that are needed are asked for. -/
theorem slotsCover_all (h0 : usage.gpuCount ≠ 0) (hcomputes : g.Computes usage.vRam)
    (hvRam : usage.vRam ≠ 0) (hslots : g.slotsFor usage.vRam < 4294967296)
    (hrange : g.ContextsInRange usage c) : g.SlotsCover usage c := by
  unfold ContextsInRange at hrange
  rw [Nat.mod_eq_of_lt hslots] at hrange
  have hk : g.reqSlotCnt usage.vRam = .ok (g.slotsFor usage.vRam) := by
    rw [reqSlotCnt_eq hcomputes, Nat.mod_eq_of_lt hslots]
  have hpos : 0 < usage.vRam.toNat := Nat.pos_of_ne_zero fun h => hvRam (UInt64.toNat_inj.mp h)
  by_cases hfew : (g.holding (chargeOf usage c
    (g.slotsFor usage.vRam))).length < usage.gpuCount.toNat
  · exact slotsCover_few h0 hk hfew
  · obtain ⟨got, left, halloc, htakes⟩ := alloc_takes h0 hk
      (Nat.ne_of_gt (slotsFor_pos hcomputes.1 hpos)) (Nat.not_lt.mp hfew) hrange
    have hcover : usage.vRam.toNat * 1024 * 1024 ≤ _ := le_slotsFor hcomputes.1
    refine ⟨⟨_, canAlloc_eq h0 hk⟩, ⟨_, _, halloc⟩, fun id ids _ => ⟨_, hk, hcover⟩,
      fun got' left' h id a ha => ?_⟩
    rw [halloc, Except.ok.injEq, Prod.mk.injEq, Except.ok.injEq] at h
    rw [← h.1] at ha
    rw [(htakes.taken id a ha).1]
    show _ ≤ (g.slotsFor usage.vRam : ℤ) * g.slotSize.toNat
    omega

/-- **The slots of a request** are computed and cover it exactly if no GPUs are asked for, or the
arithmetic is possible and too few GPUs are left, or some memory is asked for, of slots that fit
in 32 bits, and contexts that leave the GPUs in range. -/
theorem slotsCover_iff (g : GPUResourceMap) (usage : GPUResource) (c : Bool) :
    g.SlotsCover usage c ↔ usage.gpuCount = 0 ∨ g.Computes usage.vRam ∧
      ((g.holding (chargeOf usage c (g.slotsFor usage.vRam % 4294967296))).length
          < usage.gpuCount.toNat ∨
        usage.vRam ≠ 0 ∧ g.slotsFor usage.vRam < 4294967296 ∧ g.ContextsInRange usage c) := by
  by_cases h0 : usage.gpuCount = 0
  · exact ⟨fun _ => .inl h0, fun _ => slotsCover_none h0⟩
  · constructor
    · intro h
      obtain ⟨ids, hids⟩ := h.check
      have hcomputes : g.Computes usage.vRam := by
        unfold canAlloc at hids
        rw [if_neg h0] at hids
        obtain ⟨k, hk, -⟩ := Except.bind_eq_ok.mp hids
        exact reqSlotCnt_ok_iff.mp ⟨k, hk⟩
      refine .inr ⟨hcomputes, Classical.or_iff_not_imp_left.mpr fun hfew => ?_⟩
      have hk := reqSlotCnt_eq hcomputes
      have hle := Nat.not_lt.mp hfew
      obtain ⟨res, left, halloc⟩ := h.alloc
      by_cases hk0 : g.slotsFor usage.vRam % 4294967296 = 0
      · -- the assertion
        rw [hk0] at hk hle
        rw [alloc_noSlots h0 hk hle] at halloc
        cases halloc
      · have hvRam : usage.vRam ≠ 0 := fun hzero => hk0 (by rw [hzero, slotsFor_zero hcomputes.1])
        have hpos : 0 < usage.vRam.toNat :=
          Nat.pos_of_ne_zero fun hzero => hvRam (UInt64.toNat_inj.mp hzero)
        obtain ⟨got, rfl⟩ : ∃ got, res = .ok got := alloc_found h0 hk hk0 hle halloc
        have hrange := staysInRange_of_alloc h0 hk hk0 hle halloc
        refine ⟨hvRam, Nat.lt_of_not_ge fun hbig => ?_, hrange⟩
        -- the slots that are cut off are missed
        obtain ⟨got', left', halloc', htakes⟩ := alloc_takes h0 hk hk0 hle hrange
        obtain ⟨e, he⟩ : ∃ e, e ∈ got'.map.toList := by
          refine List.exists_mem_of_length_pos ?_
          rw [htakes.count]
          exact Nat.pos_of_ne_zero fun hzero => h0 (UInt64.toNat_inj.mp hzero)
        have hget : got'.map[e.1]? = some e.2 := BTreeMap.mem_toList.mp he
        have hcover := h.allocCovers got' left' halloc' e.1 e.2 hget
        rw [(htakes.taken _ _ hget).1] at hcover
        replace hcover : (usage.vRam.toNat * 1024 * 1024 : ℤ)
            ≤ ((g.slotsFor usage.vRam % 4294967296 : ℕ) : ℤ) * g.slotSize.toNat := hcover
        have hpred := slotsFor_pred_lt hcomputes.1 hpos
        have hcut : (g.slotsFor usage.vRam % 4294967296 + 1) * g.slotSize.toNat
            ≤ g.slotsFor usage.vRam * g.slotSize.toNat := Nat.mul_le_mul_right _ (by omega)
        rw [Nat.add_one_mul] at hcut
        omega
    · rintro (h | ⟨hcomputes, hfew | ⟨hvRam, hslots, hrange⟩⟩)
      · exact absurd h h0
      · exact slotsCover_few h0 (reqSlotCnt_eq hcomputes) hfew
      · exact slotsCover_all h0 hcomputes hvRam hslots hrange

end Cover

/-- A node without GPUs divides by zero. -/
theorem slots_of_none : ¬ SlotsCover {} (oneGb 1) false := by
  intro h
  obtain ⟨ids, hids⟩ := h.check
  have hfault : canAlloc {} (oneGb 1) false = .error .divideByZero := by decide
  rw [hfault] at hids
  cases hids

end GPUResourceMap

end Inferx
