import Mathlib.Algebra.BigOperators.Pi
import Mathlib.Algebra.Group.Int.Defs
import Inferx.Error
import Inferx.Lib.Map
import Inferx.Lib.Proc

/-!
# Node and function resources

The resource arithmetic of `inferxlib::resource`: what a node offers
(`NodeResources`, with one `GPUAlloc` per GPU), what a function asks for
(`Resources`), and the four operations the scheduler performs on them,
`canAlloc`, `alloc`, `add` and `sub`.

Requests are `u64`, node amounts are `i64` and may go negative for a while; a
request is compared after the wrapping cast `asI64`. Sums and differences of
amounts are checked, as the build has overflow checks (`addI64`, `subI64`).
`reqSlotCnt` computes in `u64` and truncates to `u32`. Amounts of a node are
read through `amount`, an element of an additive group, in which `add` and
`sub`, where they do not fail, are addition and subtraction. The cpu field is
compared and never charged.
-/

namespace Inferx

/-- The cast `as i64` of a `u64`: two's complement. -/
def asI64 (x : UInt64) : ℤ := x.toBitVec.toInt

/-- The cast `as i32` of a `u64`: the low half, two's complement. -/
def asI32 (x : UInt64) : ℤ := (x.toBitVec.setWidth 32).toInt

/-- The cast `as u64` of an `i64`: two's complement. -/
def asU64 (x : ℤ) : UInt64 := UInt64.ofInt x

/-- The sum of two `i64`, if it is one. -/
def addI64 (a b : ℤ) : Except Fault ℤ :=
  if 0 < b ∧ 9223372036854775808 ≤ a + b ∨ b < 0 ∧ a + b < -9223372036854775808 then
    .error .overflow
  else .ok (a + b)

/-- The difference of two `i64`, if it is one. -/
def subI64 (a b : ℤ) : Except Fault ℤ :=
  if 0 < b ∧ a - b < -9223372036854775808 ∨ b < 0 ∧ 9223372036854775808 ≤ a - b then
    .error .overflow
  else .ok (a - b)

/-- The type of a GPU; a request for `"Any"` fits every node. -/
structure GPUType where
  /-- the name -/
  name : String
  deriving DecidableEq, Repr

namespace GPUType

/-- The type that matches every GPU. -/
def any : GPUType := ⟨"Any"⟩

/-- Does a node of type `self` serve a request for `req`? -/
def canAlloc (self req : GPUType) : Bool := req.name == "Any" || self == req

end GPUType

/-- The GPU part of a request. -/
structure GPUResource where
  /-- the wanted GPU type -/
  type_ : GPUType := GPUType.any
  /-- number of GPUs -/
  gpuCount : UInt64 := 0
  /-- MB of video memory on each GPU -/
  vRam : UInt64 := 0
  /-- contexts on each GPU -/
  contextCount : UInt64 := 0
  deriving DecidableEq, Repr

/-- What a function asks for. -/
structure Resources where
  /-- 1/1000 cpu cores -/
  cpu : UInt64 := 0
  /-- MB of memory while snapshoting -/
  memory : UInt64 := 0
  /-- MB of memory when ready, or zero -/
  readyMemory : UInt64 := 0
  /-- MB of cache memory -/
  cacheMemory : UInt64 := 0
  /-- the GPU part -/
  gpu : GPUResource := {}
  deriving DecidableEq, Repr

/-- What is free, or allocated, on one GPU. -/
structure GPUAlloc where
  /-- contexts -/
  contextCnt : ℤ
  /-- memory slots -/
  slotCnt : ℤ
  /-- NCCL slots -/
  ncclCnt : ℤ
  deriving DecidableEq, Repr

instance : Add GPUAlloc :=
  ⟨fun a b => ⟨a.contextCnt + b.contextCnt, a.slotCnt + b.slotCnt, a.ncclCnt + b.ncclCnt⟩⟩

instance : Sub GPUAlloc :=
  ⟨fun a b => ⟨a.contextCnt - b.contextCnt, a.slotCnt - b.slotCnt, a.ncclCnt - b.ncclCnt⟩⟩

/-- The amounts of `b` on top of those of `a`. -/
def GPUAlloc.add (a b : GPUAlloc) : Except Fault GPUAlloc := do
  let slotCnt ← addI64 a.slotCnt b.slotCnt
  let contextCnt ← addI64 a.contextCnt b.contextCnt
  let ncclCnt ← addI64 a.ncclCnt b.ncclCnt
  return { contextCnt, slotCnt, ncclCnt }

/-- The amounts of `b` off those of `a`. -/
def GPUAlloc.sub (a b : GPUAlloc) : Except Fault GPUAlloc := do
  let slotCnt ← subI64 a.slotCnt b.slotCnt
  let ncclCnt ← subI64 a.ncclCnt b.ncclCnt
  let contextCnt ← subI64 a.contextCnt b.contextCnt
  return { contextCnt, slotCnt, ncclCnt }

/-- The GPUs of a node, or of one allocation. -/
structure GPUResourceMap where
  /-- slots of one GPU of the node -/
  totalSlotCnt : UInt32 := 0
  /-- physical GPU id to amounts -/
  map : BTreeMap ℤ GPUAlloc := ∅
  /-- bytes of one slot -/
  slotSize : UInt64 := 0
  deriving DecidableEq

/-- The resources of a node, or of one allocation on it. -/
structure NodeResources where
  /-- the node -/
  nodename : String := ""
  /-- 1/1000 cpu cores -/
  cpu : ℤ := 0
  /-- MB of memory -/
  memory : ℤ := 0
  /-- MB of cache memory -/
  cacheMemory : ℤ := 0
  /-- the type of the GPUs -/
  gpuType : GPUType := GPUType.any
  /-- the GPUs -/
  gpus : GPUResourceMap := {}
  /-- contexts one GPU can hold -/
  maxContextCnt : ℤ := 0
  deriving DecidableEq

namespace GPUResourceMap

/-- One iteration of the loop in `Add`: give back the amounts of one GPU. -/
def addEntry (self : GPUResourceMap) (entry : ℤ × GPUAlloc) : Except Fault GPUResourceMap :=
  if entry.2.slotCnt < 0 ∨ entry.2.contextCnt < 0 ∨ entry.2.ncclCnt < 0 then
    .error .gpuAddNegative
  else
    match self.map[entry.1]? with
    | none => .ok { self with map := self.map.insert entry.1 entry.2 }
    | some alloc => do
      let slotCnt ← addI64 alloc.slotCnt entry.2.slotCnt
      if slotCnt ≤ self.totalSlotCnt.toNat then
        let alloc ← alloc.add entry.2
        return { self with map := self.map.insert entry.1 alloc }
      else .error .gpuAddOverTotal

/-- Give the amounts of `free` back. -/
def add (self free : GPUResourceMap) : Except Fault GPUResourceMap :=
  free.map.toList.foldlM addEntry
    { self with slotSize := if self.slotSize = 0 then free.slotSize else self.slotSize }

/-- One iteration of the loop in `Sub`: take the amounts of one GPU. -/
def subEntry (self : GPUResourceMap) (entry : ℤ × GPUAlloc) : Except Fault GPUResourceMap :=
  if entry.2.slotCnt < 0 ∨ entry.2.contextCnt < 0 ∨ entry.2.ncclCnt < 0 then
    .error .gpuSubNegative
  else
    match self.map[entry.1]? with
    | none => .error .gpuSubMissing
    | some cnt => do
      let cnt ← cnt.sub entry.2
      return { self with map := self.map.insert entry.1 cnt }

/-- Take the amounts of `alloc`; the rest may go negative. -/
def sub (self alloc : GPUResourceMap) : Except Fault GPUResourceMap :=
  if alloc.slotSize = 0 ∨ self.slotSize = alloc.slotSize then
    alloc.map.toList.foldlM subEntry self
  else .error .gpuSubSlotSize

/-- The slots that hold `vRam` MB, rounded up: `u64` arithmetic, then a cast
to `u32`. -/
def reqSlotCnt (self : GPUResourceMap) (vRam : UInt64) : Except Fault ℕ :=
  let bytes := vRam.toNat * 1024 * 1024
  if 2 ^ 64 ≤ bytes ∨ 2 ^ 64 ≤ bytes + self.slotSize.toNat ∨ bytes + self.slotSize.toNat = 0 then
    .error .overflow
  else if self.slotSize = 0 then .error .divideByZero
  else .ok ((bytes + self.slotSize.toNat - 1) / self.slotSize.toNat % 2 ^ 32)

/-- The NCCL slots a request takes on each of its GPUs. -/
def ncclCnt (usage : GPUResource) (createSnapshot : Bool) : ℤ :=
  if createSnapshot then 1 else if usage.gpuCount < 2 then 0 else 1

/-- Scan the GPUs in id order and stop at the `cnt`-th one that fits. -/
def pickGpus (fits : GPUAlloc → Bool) : List (ℤ × GPUAlloc) → ℕ → Option (List ℤ)
  | [], _ => none
  | (id, resource) :: rest, cnt =>
    if fits resource then
      if cnt = 1 then some [id] else (pickGpus fits rest (cnt - 1)).map (id :: ·)
    else pickGpus fits rest cnt

/-- The GPUs a request would get, or `none`. -/
def canAlloc (self : GPUResourceMap) (usage : GPUResource) (createSnapshot : Bool) :
    Except Fault (Option (List ℤ)) :=
  if usage.gpuCount = 0 then .ok (some [])
  else do
    let reqSlotCnt ← self.reqSlotCnt usage.vRam
    return pickGpus
      (fun resource => asI64 usage.contextCount ≤ resource.contextCnt
        && ncclCnt usage createSnapshot ≤ resource.ncclCnt
        && (reqSlotCnt : ℤ) ≤ resource.slotCnt)
      self.map.toList usage.gpuCount.toNat

/-- The second pass of `Alloc`: charge each chosen GPU and record the charge. -/
def takeGpus (charge : GPUAlloc) :
    List ℤ → GPUResourceMap → BTreeMap ℤ GPUAlloc →
      Except Fault (BTreeMap ℤ GPUAlloc × GPUResourceMap)
  | [], self, map => .ok (map, self)
  | gpu :: rest, self, map =>
    match self.map[gpu]? with
    | none => .error .gpuAllocMissing
    | some resource => do
      let resource ← resource.sub charge
      takeGpus charge rest { self with map := self.map.insert gpu resource }
        (map.insert gpu charge)

/-- Allocate, or leave the map as it is and fail. -/
def alloc (self : GPUResourceMap) (usage : GPUResource) (createSnapshot : Bool) :
    Except Fault (Except Error GPUResourceMap × GPUResourceMap) := do
  match ← self.canAlloc usage createSnapshot with
  | none => return (.error (.schedulerNoEnoughResource ""), self)
  | some gpus =>
    if usage.gpuCount = 0 then
      return (.ok { totalSlotCnt := self.totalSlotCnt, slotSize := self.slotSize }, self)
    let slotCnt ← self.reqSlotCnt usage.vRam
    if slotCnt = 0 then .error .gpuAllocNoSlots
    else
      let charge : GPUAlloc :=
        { contextCnt := asI64 usage.contextCount
          slotCnt := slotCnt
          ncclCnt := ncclCnt usage createSnapshot }
      let (map, self') ← takeGpus charge gpus self ∅
      return (.ok { totalSlotCnt := self.totalSlotCnt, map, slotSize := self.slotSize }, self')

end GPUResourceMap

namespace NodeResources

/-- Give `free` back. -/
def add (self free : NodeResources) : Except Fault NodeResources :=
  if self.gpuType = free.gpuType then do
    let gpus ← self.gpus.add free.gpus
    let memory ← addI64 self.memory free.memory
    let cacheMemory ← addI64 self.cacheMemory free.cacheMemory
    return { self with gpus, memory, cacheMemory }
  else .error .gpuTypeMismatch

/-- Take `other`. -/
def sub (self other : NodeResources) : Except Fault NodeResources := do
  let memory ← subI64 self.memory other.memory
  let cacheMemory ← subI64 self.cacheMemory other.cacheMemory
  let gpus ← self.gpus.sub other.gpus
  return { self with gpus, memory, cacheMemory }

/-- Check a request against what is free. -/
def canAlloc (self : NodeResources) (req : Resources) (createSnapshot : Bool) :
    Except Fault AllocState := do
  let gpu ← self.gpus.canAlloc req.gpu createSnapshot
  return {
    cpu := asI64 req.cpu ≤ self.cpu
    memory := asI64 req.memory ≤ self.memory
    cacheMem := asI64 req.cacheMemory ≤ self.cacheMemory
    gpuType := self.gpuType.canAlloc req.gpu.type_
    gpu := gpu.isSome }

/-- Allocate a request; returns what was allocated and what is left. -/
def alloc (self : NodeResources) (req : Resources) (createSnapshot : Bool) :
    Except Fault (Except Error NodeResources × NodeResources) := do
  let state ← self.canAlloc req createSnapshot
  if state.ok then
    let memory ← subI64 self.memory (asI64 req.memory)
    let cacheMemory ← subI64 self.cacheMemory (asI64 req.cacheMemory)
    let (gpus, rest) ← self.gpus.alloc req.gpu createSnapshot
    return (gpus.map fun gpus =>
      { nodename := self.nodename
        cpu := asI64 req.cpu
        memory := asI64 req.memory
        cacheMemory := asI64 req.cacheMemory
        gpuType := self.gpuType
        gpus
        maxContextCnt := self.maxContextCnt }, { self with memory, cacheMemory, gpus := rest })
  else return (.error (.scheduleFail state), self)

end NodeResources

/-! ## Checked sums -/

/-- The cast `as i64` changes the sign of the upper half. -/
theorem asI64_eq (x : UInt64) :
    asI64 x = if x.toNat < 2 ^ 63 then (x.toNat : ℤ) else x.toNat - 2 ^ 64 := by
  unfold asI64
  rw [BitVec.toInt_eq_toNat_cond]
  show (if 2 * x.toNat < 2 ^ 64 then (x.toNat : ℤ) else (x.toNat : ℤ) - (2 ^ 64 : ℕ)) = _
  split <;> split <;> omega

theorem GPUResourceMap.nodup_keys (m : BTreeMap ℤ GPUAlloc) : (m.toList.map Prod.fst).Nodup := by
  rw [List.Nodup, List.pairwise_map]
  refine Std.ExtTreeMap.distinct_keys_toList.imp fun hne heq => ?_
  exact hne (by rw [heq]; exact Std.compare_self)

section Checked

variable {x y z : ℤ} {a b c : GPUAlloc}

theorem addI64_eq_ok : addI64 x y = .ok z ↔ z = x + y ∧
    (0 < y → x + y < 9223372036854775808) ∧ (y < 0 → -9223372036854775808 ≤ x + y) := by
  unfold addI64
  split
  next h =>
    constructor
    · intro heq
      cases heq
    · omega
  next h =>
    rw [Except.ok.injEq]
    omega

theorem subI64_eq_ok : subI64 x y = .ok z ↔ z = x - y ∧
    (0 < y → -9223372036854775808 ≤ x - y) ∧ (y < 0 → x - y < 9223372036854775808) := by
  unfold subI64
  split
  next h =>
    constructor
    · intro heq
      cases heq
    · omega
  next h =>
    rw [Except.ok.injEq]
    omega

theorem GPUAlloc.sub_add (a b : GPUAlloc) : a - b + b = a := by
  show GPUAlloc.mk (a.contextCnt - b.contextCnt + b.contextCnt) (a.slotCnt - b.slotCnt + b.slotCnt)
    (a.ncclCnt - b.ncclCnt + b.ncclCnt) = a
  rw [Int.sub_add_cancel, Int.sub_add_cancel, Int.sub_add_cancel]

/-- No amount is below zero. -/
structure GPUAlloc.Nonneg (a : GPUAlloc) : Prop where
  contexts : 0 ≤ a.contextCnt
  slots : 0 ≤ a.slotCnt
  nccls : 0 ≤ a.ncclCnt

theorem GPUAlloc.eq_of_add (h : a.add b = .ok c) : c = a + b := by
  unfold GPUAlloc.add at h
  obtain ⟨x, hx, h⟩ := Except.bind_eq_ok.mp h
  obtain ⟨y, hy, h⟩ := Except.bind_eq_ok.mp h
  obtain ⟨z, hz, h⟩ := Except.bind_eq_ok.mp h
  obtain rfl := Except.ok.inj h
  rw [(addI64_eq_ok.mp hx).1, (addI64_eq_ok.mp hy).1, (addI64_eq_ok.mp hz).1]
  rfl

theorem GPUAlloc.eq_of_sub (h : a.sub b = .ok c) : c = a - b := by
  unfold GPUAlloc.sub at h
  obtain ⟨x, hx, h⟩ := Except.bind_eq_ok.mp h
  obtain ⟨y, hy, h⟩ := Except.bind_eq_ok.mp h
  obtain ⟨z, hz, h⟩ := Except.bind_eq_ok.mp h
  obtain rfl := Except.ok.inj h
  rw [(subI64_eq_ok.mp hx).1, (subI64_eq_ok.mp hy).1, (subI64_eq_ok.mp hz).1]
  rfl

/-- Amounts that are not below zero go on top if the sums are not too large. -/
theorem GPUAlloc.add_eq (hb : b.Nonneg) (hcontexts : a.contextCnt + b.contextCnt < 9223372036854775808)
    (hslots : a.slotCnt + b.slotCnt < 9223372036854775808)
    (hnccls : a.ncclCnt + b.ncclCnt < 9223372036854775808) : a.add b = .ok (a + b) := by
  obtain ⟨h, h', h''⟩ := hb
  unfold GPUAlloc.add
  rw [addI64_eq_ok.mpr ⟨rfl, fun _ => hslots, by omega⟩, Except.ok_bind,
    addI64_eq_ok.mpr ⟨rfl, fun _ => hcontexts, by omega⟩, Except.ok_bind,
    addI64_eq_ok.mpr ⟨rfl, fun _ => hnccls, by omega⟩]
  rfl

/-- Amounts come off if the differences are not out of range on the side they move to. -/
theorem GPUAlloc.sub_eq_ok : a.sub b = .ok c ↔ c = a - b ∧
    ((0 < b.slotCnt → -9223372036854775808 ≤ a.slotCnt - b.slotCnt) ∧
      (b.slotCnt < 0 → a.slotCnt - b.slotCnt < 9223372036854775808)) ∧
    ((0 < b.ncclCnt → -9223372036854775808 ≤ a.ncclCnt - b.ncclCnt) ∧
      (b.ncclCnt < 0 → a.ncclCnt - b.ncclCnt < 9223372036854775808)) ∧
    ((0 < b.contextCnt → -9223372036854775808 ≤ a.contextCnt - b.contextCnt) ∧
      (b.contextCnt < 0 → a.contextCnt - b.contextCnt < 9223372036854775808)) := by
  constructor
  · intro h
    refine ⟨GPUAlloc.eq_of_sub h, ?_⟩
    unfold GPUAlloc.sub at h
    obtain ⟨x, hx, h⟩ := Except.bind_eq_ok.mp h
    obtain ⟨y, hy, h⟩ := Except.bind_eq_ok.mp h
    obtain ⟨z, hz, -⟩ := Except.bind_eq_ok.mp h
    exact ⟨(subI64_eq_ok.mp hx).2, (subI64_eq_ok.mp hy).2, (subI64_eq_ok.mp hz).2⟩
  · rintro ⟨rfl, hslots, hnccls, hcontexts⟩
    unfold GPUAlloc.sub
    rw [subI64_eq_ok.mpr ⟨rfl, hslots⟩, Except.ok_bind, subI64_eq_ok.mpr ⟨rfl, hnccls⟩,
      Except.ok_bind, subI64_eq_ok.mpr ⟨rfl, hcontexts⟩]
    rfl

end Checked

end Inferx
