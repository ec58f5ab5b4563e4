import Inferx.Scheduler.Allocation
import Inferx.Scheduler.Search

/-!
# What a resume needs

A standby pod holds memory and cache memory on its node. To resume it the
scheduler first asks whether the node has `reqResumeResource` left, the part of
`readyResource` that the standby pod does not hold already, and then gives the
standby pod's share back to a copy of the node and allocates `readyResource`
from it. The two agree as long as the standby pod holds no more memory than the
ready one: the check stops at zero, the allocation does not.

All sizes are `u64`. The snapshot's bytes are rounded up to whole gigabytes and
counted in MB, and what is cached is taken off the function's memory.
-/

namespace Inferx

/-! ## Sizes of a snapshot -/

theorem roundUpMb_ok_iff {x : UInt64} : (∃ m, roundUpMb x = .ok m) ↔ x.toNat + 2 ^ 30 < 2 ^ 64 := by
  unfold roundUpMb
  split
  next h => exact ⟨fun ⟨_, hm⟩ => (nomatch hm), fun hlt => absurd h (Nat.not_le.mpr hlt)⟩
  next h => exact ⟨fun _ => Nat.not_le.mp h, fun _ => ⟨_, rfl⟩⟩

theorem toNat_roundUpMb {x m : UInt64} (h : roundUpMb x = .ok m) :
    m.toNat = (x.toNat + 2 ^ 30 - 1) / 2 ^ 30 * 1024 := by
  unfold roundUpMb at h
  split at h
  next => cases h
  next hlt =>
    obtain rfl := Except.ok.inj h
    rw [UInt64.toNat_ofNat']
    omega

/-- Whole gigabytes in MB are far below what an `i64` holds. -/
theorem roundUpMb_small {x m : UInt64} (h : roundUpMb x = .ok m) : m.toNat < 2 ^ 63 := by
  have hx := x.toNat_lt
  rw [toNat_roundUpMb h]
  omega

namespace SnapshotInfo

variable {i : SnapshotInfo} {m : UInt64}

theorem standbyMemory_small (h : i.standbyMemory = .ok m) : m.toNat < 2 ^ 63 := by
  unfold standbyMemory at h
  split at h
  next => exact roundUpMb_small h
  next =>
    obtain rfl := Except.ok.inj h
    decide

theorem standbyMemory_ok_iff : (∃ m, i.standbyMemory = .ok m) ↔
    (i.standby.pageableMem = .mem → i.processCheckpointSize.toNat + 2 ^ 30 < 2 ^ 64) := by
  unfold standbyMemory
  split
  next h => rw [roundUpMb_ok_iff, imp_iff_right h]
  next h => exact ⟨fun _ hm => absurd hm h, fun _ => ⟨0, rfl⟩⟩

/-- A standby pod caches what a ready one does, or nothing. -/
theorem standyCacheMemory_of_ready {c : UInt64} (h : i.readyCacheMemory = .ok c) :
    i.standyCacheMemory = .ok c ∨ i.standyCacheMemory = .ok 0 := by
  unfold standyCacheMemory
  split
  next => exact .inl h
  next => exact .inr rfl

end SnapshotInfo

/-! ## The arithmetic of a resume -/

namespace SchedulerHandler

variable {s : SchedulerHandler} {fr ready standby req : Resources} {f n : String}
  {snapshot : ContainerSnapshot}

theorem readyResource_ok_iff (hs : s.snapshotOf f n = .ok snapshot) :
    s.readyResource fr f n = .ok ready ↔ ∃ c, snapshot.info.readyCacheMemory = .ok c ∧
      (fr.readyMemory = 0 → c ≤ fr.memory) ∧
      ready = { fr with
        cacheMemory := c
        memory := if 0 < fr.readyMemory then fr.readyMemory else fr.memory - c
        gpu := { fr.gpu with contextCount := 1 } } := by
  unfold readyResource
  rw [hs, Except.ok_bind, Except.bind_eq_ok]
  refine exists_congr fun c => and_congr_right fun _ => ?_
  have hzero : ¬ 0 < fr.readyMemory ↔ fr.readyMemory = 0 := by
    rw [← UInt64.toNat_inj, UInt64.lt_iff_toNat_lt]
    exact Nat.not_lt.trans Nat.le_zero
  by_cases hpos : 0 < fr.readyMemory
  · rw [if_pos hpos, if_pos hpos]
    have hne : fr.readyMemory ≠ 0 := fun h => hzero.mpr h hpos
    exact ⟨fun h => ⟨fun h0 => absurd h0 hne, (Except.ok.inj h).symm⟩, fun h => congrArg _ h.2.symm⟩
  · rw [if_neg hpos, if_neg hpos, hzero.mp hpos]
    split
    next hlt =>
      refine ⟨fun h => (nomatch h), fun h => absurd (h.1 rfl) ?_⟩
      rw [UInt64.le_iff_toNat_le]
      exact Nat.not_le.mpr (UInt64.lt_iff_toNat_lt.mp hlt)
    next hle =>
      refine ⟨fun h => ⟨fun _ => ?_, (Except.ok.inj h).symm⟩, fun h => congrArg _ h.2.symm⟩
      rw [UInt64.le_iff_toNat_le]
      exact Nat.not_lt.mp fun h => hle (UInt64.lt_iff_toNat_lt.mpr h)

theorem standyResource_ok_iff (hs : s.snapshotOf f n = .ok snapshot) :
    s.standyResource f n = .ok standby ↔ ∃ m c, snapshot.info.standbyMemory = .ok m ∧
      snapshot.info.standyCacheMemory = .ok c ∧ standby = { memory := m, cacheMemory := c } := by
  unfold standyResource
  rw [hs, Except.ok_bind, ContainerSnapshot.standbyResource, Except.bind_eq_ok]
  refine exists_congr fun m => ?_
  constructor
  · rintro ⟨hm, h⟩
    obtain ⟨c, hc, h⟩ := Except.bind_eq_ok.mp h
    exact ⟨c, hm, hc, (Except.ok.inj h).symm⟩
  · rintro ⟨c, hm, hc, rfl⟩
    refine ⟨hm, ?_⟩
    rw [hc]
    rfl

theorem reqResumeResource_ok_iff : s.reqResumeResource fr f n = .ok req ↔
    ∃ ready standby, s.readyResource fr f n = .ok ready ∧ s.standyResource f n = .ok standby ∧
      req = { ready with
        memory := if standby.memory < ready.memory then ready.memory - standby.memory else 0
        cacheMemory :=
          if standby.cacheMemory < ready.cacheMemory then ready.cacheMemory - standby.cacheMemory
          else 0 } := by
  unfold reqResumeResource
  rw [Except.bind_eq_ok]
  refine exists_congr fun ready => ?_
  constructor
  · rintro ⟨hready, h⟩
    obtain ⟨standby, hstandby, h⟩ := Except.bind_eq_ok.mp h
    exact ⟨standby, hready, hstandby, (Except.ok.inj h).symm⟩
  · rintro ⟨standby, hready, hstandby, rfl⟩
    refine ⟨hready, ?_⟩
    rw [hstandby]
    rfl

/-- None of the size computations of a resume of `fr` on the snapshot wraps, and the memory of
the resumed pod is one of the two the function may have. -/
structure ResumeArith (s : SchedulerHandler) (fr : Resources) (f n : String) (i : SnapshotInfo) :
    Prop where
  /-- the standby pod's memory -/
  standbyMemory : ∃ m, i.standbyMemory = .ok m
  /-- the standby pod's cache -/
  standyCacheMemory : ∃ c, i.standyCacheMemory = .ok c
  /-- the ready pod's cache -/
  readyCacheMemory : ∃ c, i.readyCacheMemory = .ok c
  /-- the ready pod -/
  readyResource : ∃ r, s.readyResource fr f n = .ok r ∧
    (r.memory ≤ fr.memory ∨ r.memory = fr.readyMemory)
  /-- what the resume needs -/
  reqResumeResource : ∃ r, s.reqResumeResource fr f n = .ok r

/-- **When a resume's arithmetic holds.** Exactly when the rounded sizes fit a `u64` and a function
without a ready memory of its own has at least the memory its snapshot caches. -/
theorem resumeArith_iff (hs : s.snapshotOf f n = .ok snapshot) (func : Function) :
    s.ResumeArith func.runningResource f n snapshot.info ↔
      snapshot.info.hostMemSize.toNat + 2 ^ 30 < 2 ^ 64 ∧
      (snapshot.info.standby.pageableMem = .mem →
        snapshot.info.processCheckpointSize.toNat + 2 ^ 30 < 2 ^ 64) ∧
      (func.resources.readyMemory = 0 →
        (snapshot.info.hostMemSize.toNat + 2 ^ 30 - 1) / 2 ^ 30 * 1024
          ≤ func.resources.memory.toNat) := by
  constructor
  · intro h
    obtain ⟨r, hr, -⟩ := h.readyResource
    obtain ⟨c, hc, hmem, -⟩ := (readyResource_ok_iff hs).mp hr
    refine ⟨roundUpMb_ok_iff.mp h.readyCacheMemory,
      SnapshotInfo.standbyMemory_ok_iff.mp h.standbyMemory, fun h0 => ?_⟩
    rw [← toNat_roundUpMb hc]
    exact UInt64.le_iff_toNat_le.mp (hmem h0)
  · rintro ⟨hhost, hpageable, hmem⟩
    obtain ⟨c, hc⟩ : ∃ c, snapshot.info.readyCacheMemory = .ok c := roundUpMb_ok_iff.mpr hhost
    obtain ⟨m, hm⟩ := SnapshotInfo.standbyMemory_ok_iff.mpr hpageable
    have hle : func.runningResource.readyMemory = 0 → c ≤ func.runningResource.memory := by
      intro h0
      rw [UInt64.le_iff_toNat_le, toNat_roundUpMb hc]
      exact hmem h0
    obtain ⟨c', hc'⟩ : ∃ c', snapshot.info.standyCacheMemory = .ok c' :=
      (SnapshotInfo.standyCacheMemory_of_ready hc).elim (fun h => ⟨_, h⟩) (fun h => ⟨_, h⟩)
    have hready : s.readyResource func.runningResource f n = .ok _ :=
      (readyResource_ok_iff hs).mpr ⟨c, hc, hle, rfl⟩
    have hstandby := (standyResource_ok_iff hs).mpr ⟨m, c', hm, hc', rfl⟩
    refine ⟨⟨m, hm⟩, ⟨c', hc'⟩, ⟨c, hc⟩, ⟨_, hready, ?_⟩,
      ⟨_, reqResumeResource_ok_iff.mpr ⟨_, _, hready, hstandby, rfl⟩⟩⟩
    by_cases hpos : 0 < func.runningResource.readyMemory
    · exact .inr (if_pos hpos)
    · have h0 : func.runningResource.readyMemory = 0 := by
        rw [← UInt64.toNat_inj]
        exact Nat.le_zero.mp (Nat.not_lt.mp fun h => hpos (UInt64.lt_iff_toNat_lt.mpr h))
      refine .inl ?_
      show (if _ then _ else _) ≤ _
      rw [if_neg hpos, UInt64.le_iff_toNat_le, UInt64.toNat_sub_of_le _ _ (hle h0)]
      exact Nat.sub_le _ _

/-! ### Runs -/

/-- A function with the given memories. -/
def sizedFunc (memory readyMemory : UInt64) : Function where
  tenant := "acme"
  nameSpace := "prod"
  name := "llama"
  version := 1
  resources := { memory, readyMemory }

/-- A snapshot with the given sizes, whose parts are kept in memory. -/
def sizedSnapshot (hostMemSize processCheckpointSize : UInt64) : ContainerSnapshot where
  funckey := "acme/prod/llama/1"
  nodename := "node1"
  info :=
    { hostMemSize, processCheckpointSize
      standby := { pageableMem := .mem, pinndMem := .mem } }

/-- A scheduler that knows one snapshot. -/
def withSnapshot (snapshot : ContainerSnapshot) : SchedulerHandler where
  snapshots := (∅ : BTreeMap String (BTreeMap String ContainerSnapshot)).insert snapshot.funckey
    ((∅ : BTreeMap String ContainerSnapshot).insert snapshot.nodename snapshot)

theorem snapshotOf_withSnapshot (snapshot : ContainerSnapshot) :
    (withSnapshot snapshot).snapshotOf snapshot.funckey snapshot.nodename = .ok snapshot := by
  simp only [snapshotOf, withSnapshot, BTreeMap.get_insert_self]

theorem resumeArith_of_room :
    (withSnapshot (sizedSnapshot 1073741824 1073741824)).ResumeArith (sizedFunc 4096 0).runningResource
      "acme/prod/llama/1" "node1" (sizedSnapshot 1073741824 1073741824).info :=
  (resumeArith_iff (snapshotOf_withSnapshot (sizedSnapshot 1073741824 1073741824))
    (sizedFunc 4096 0)).mpr ⟨by decide, fun _ => by decide, fun _ => by decide⟩

/-- A function of 1024 MB whose snapshot has 2 GB of pinned memory. -/
theorem readyResource_underflows : ¬ ∀ (s : SchedulerHandler) (f n : String)
    (snapshot : ContainerSnapshot) (func : Function), s.snapshotOf f n = .ok snapshot →
    s.ResumeArith func.runningResource f n snapshot.info := by
  intro h
  have hs := snapshotOf_withSnapshot (sizedSnapshot 2147483648 0)
  obtain ⟨r, hr, -⟩ := (h _ _ _ _ (sizedFunc 1024 0) hs).readyResource
  obtain ⟨c, hc, hmem, -⟩ := (readyResource_ok_iff hs).mp hr
  have hc' : c.toNat = 2048 := toNat_roundUpMb hc
  have hle : c.toNat ≤ 1024 := UInt64.le_iff_toNat_le.mp (hmem rfl)
  omega

end SchedulerHandler

/-! ## The check and the allocation -/

/-- A subtraction that stops at zero, on either side of the cast. -/
theorem asI64_saturating {x y : UInt64} (hy : y.toNat < 2 ^ 63)
    (hx : x.toNat < 2 ^ 63 ∨ 2 ^ 63 + y.toNat ≤ x.toNat) :
    asI64 (if y < x then x - y else 0) = asI64 x - asI64 y + (y.toNat - x.toNat : ℕ) := by
  have hx' := x.toNat_lt
  rw [asI64_eq y, if_pos hy, asI64_eq x]
  split
  next hlt =>
    have hlt' : y.toNat < x.toNat := UInt64.lt_iff_toNat_lt.mp hlt
    rw [asI64_eq, UInt64.toNat_sub_of_le _ _ (UInt64.le_iff_toNat_le.mpr (Nat.le_of_lt hlt'))]
    split <;> split <;> omega
  next hge =>
    have hge' : x.toNat ≤ y.toNat := Nat.not_lt.mp fun h => hge (UInt64.lt_iff_toNat_lt.mpr h)
    rw [show asI64 0 = 0 from rfl, if_pos (by omega)]
    omega

namespace GPUResourceMap

/-- The request takes slots of the GPUs it gets, if it gets any. -/
def TakesSlots (self : GPUResourceMap) (usage : GPUResource) : Prop :=
  usage.gpuCount = 0 ∨ ∃ k, self.reqSlotCnt usage.vRam = .ok k ∧ k ≠ 0

/-- An allocation succeeds when the check does and it takes slots, if the contexts are not cast to
a number below zero. -/
theorem alloc_ok_iff {self : GPUResourceMap} {usage : GPUResource} {c : Bool}
    (hctx : usage.gpuCount = 0 ∨ usage.contextCount.toNat < 9223372036854775808) :
    (∃ g rest, self.alloc usage c = .ok (.ok g, rest)) ↔
      (∃ ids, self.canAlloc usage c = .ok (some ids)) ∧ self.TakesSlots usage := by
  by_cases h0 : usage.gpuCount = 0
  · exact iff_of_true ⟨_, _, alloc_none h0⟩ ⟨⟨[], if_pos h0⟩, .inl h0⟩
  · rcases hk : self.reqSlotCnt usage.vRam with e | k
    · have hcheck : self.canAlloc usage c = .error e := by
        unfold canAlloc
        rw [if_neg h0, hk]
        rfl
      refine iff_of_false ?_ ?_
      · rintro ⟨g, rest, h⟩
        unfold alloc at h
        rw [hcheck] at h
        cases h
      · rintro ⟨⟨ids, h⟩, -⟩
        rw [hcheck] at h
        cases h
    · rw [canAlloc_eq h0 hk]
      by_cases hle : usage.gpuCount.toNat ≤ (self.holding (chargeOf usage c k)).length
      · rw [if_pos hle]
        by_cases hk0 : k = 0
        · subst hk0
          refine iff_of_false ?_ ?_
          · rintro ⟨g, rest, h⟩
            rw [alloc_noSlots h0 hk hle] at h
            cases h
          · rintro ⟨-, hzero | ⟨k', hk', hk0'⟩⟩
            · exact h0 hzero
            · exact hk0' (Except.ok.inj (hk'.symm.trans hk))
        · obtain ⟨got, left, halloc, -⟩ := alloc_takes h0 hk hk0 hle
            (staysInRange_of_lt (hctx.resolve_left h0))
          exact iff_of_true ⟨got, left, halloc⟩ ⟨⟨_, rfl⟩, .inr ⟨k, hk, hk0⟩⟩
      · rw [if_neg hle, alloc_few h0 hk hle]
        refine iff_of_false ?_ ?_
        · rintro ⟨g, rest, h⟩
          cases h
        · rintro ⟨⟨ids, h⟩, -⟩
          cases h

end GPUResourceMap

/-- A request for amounts that the casts keep. -/
structure Resources.Castable (req : Resources) : Prop where
  memory : req.memory.toNat < 9223372036854775808
  cacheMemory : req.cacheMemory.toNat < 9223372036854775808
  contexts : req.gpu.gpuCount = 0 ∨ req.gpu.contextCount.toNat < 9223372036854775808

theorem Resources.Castable.eq {req : Resources} (h : req.Castable) :
    asI64 req.memory = req.memory.toNat ∧ asI64 req.cacheMemory = req.cacheMemory.toNat := by
  have hpow : (2 : ℕ) ^ 63 = 9223372036854775808 := by decide
  rw [asI64_eq, asI64_eq, hpow, if_pos h.memory, if_pos h.cacheMemory]
  exact ⟨rfl, rfl⟩

namespace NodeResources

variable {nr : NodeResources} {req : Resources} {c : Bool}

/-- The check passes. -/
def Fits (nr : NodeResources) (req : Resources) (c : Bool) : Prop :=
  ∃ state, nr.canAlloc req c = .ok state ∧ state.ok = true

/-- The allocation succeeds. -/
def Serves (nr : NodeResources) (req : Resources) (c : Bool) : Prop :=
  ∃ g rest, nr.alloc req c = .ok (.ok g, rest)

instance : Decidable (nr.Fits req c) :=
  decidable_of_iff ((nr.canAlloc req c).toOption.any AllocState.ok = true) <| by
    unfold Fits
    rcases nr.canAlloc req c with e | state
    · exact ⟨fun h => (nomatch h), fun ⟨_, h, _⟩ => (nomatch h)⟩
    · exact ⟨fun h => ⟨state, rfl, h⟩, fun ⟨_, h, hok⟩ => Except.ok.inj h ▸ hok⟩

theorem fits_iff : nr.Fits req c ↔ asI64 req.cpu ≤ nr.cpu ∧ asI64 req.memory ≤ nr.memory ∧
    asI64 req.cacheMemory ≤ nr.cacheMemory ∧ nr.gpuType.canAlloc req.gpu.type_ = true ∧
    ∃ ids, nr.gpus.canAlloc req.gpu c = .ok (some ids) := by
  unfold Fits canAlloc
  rcases nr.gpus.canAlloc req.gpu c with e | ids
  · constructor
    · rintro ⟨_, h, -⟩
      cases h
    · rintro ⟨-, -, -, -, _, h⟩
      cases h
  · rw [Except.ok_bind]
    rcases ids with _ | ids <;> simp [pure, Except.pure, AllocState.ok, and_assoc]

/-- What is left stays in range if the cast takes the request below zero. -/
structure StaysInRange (nr : NodeResources) (req : Resources) : Prop where
  memory : asI64 req.memory < 0 → nr.memory - asI64 req.memory < 9223372036854775808
  cacheMemory : asI64 req.cacheMemory < 0 →
    nr.cacheMemory - asI64 req.cacheMemory < 9223372036854775808

/-- What an allocation leaves. -/
theorem alloc_eq_ok_iff {g rest : NodeResources} : nr.alloc req c = .ok (.ok g, rest) ↔
    nr.Fits req c ∧ nr.StaysInRange req ∧ ∃ gpus left, nr.gpus.alloc req.gpu c = .ok (.ok gpus, left) ∧
      g = { nodename := nr.nodename
            cpu := asI64 req.cpu
            memory := asI64 req.memory
            cacheMemory := asI64 req.cacheMemory
            gpuType := nr.gpuType
            gpus
            maxContextCnt := nr.maxContextCnt } ∧
      rest = { nr with
        memory := nr.memory - asI64 req.memory
        cacheMemory := nr.cacheMemory - asI64 req.cacheMemory
        gpus := left } := by
  constructor
  · intro h
    unfold alloc at h
    obtain ⟨state, hstate, h⟩ := Except.bind_eq_ok.mp h
    split at h
    next hok =>
      obtain ⟨memory, hmem, h⟩ := Except.bind_eq_ok.mp h
      obtain ⟨cache, hcache, h⟩ := Except.bind_eq_ok.mp h
      obtain ⟨⟨gpus, left⟩, hgpus, h⟩ := Except.bind_eq_ok.mp h
      obtain ⟨rfl, -, hmemory⟩ := subI64_eq_ok.mp hmem
      obtain ⟨rfl, -, hcacheMemory⟩ := subI64_eq_ok.mp hcache
      obtain ⟨hg, rfl⟩ := Prod.mk.inj (Except.ok.inj h)
      rcases gpus with e | gpus
      · cases hg
      · exact ⟨⟨state, hstate, hok⟩, ⟨hmemory, hcacheMemory⟩, gpus, left, hgpus,
          (Except.ok.inj hg).symm, rfl⟩
    next => cases h
  · rintro ⟨hfits, hrange, gpus, left, hgpus, rfl, rfl⟩
    obtain ⟨-, hmem, hcache, -, -⟩ := fits_iff.mp hfits
    obtain ⟨state, hstate, hok⟩ := hfits
    unfold alloc
    rw [hstate, Except.ok_bind, if_pos hok, subI64_eq_ok.mpr ⟨rfl, by omega, hrange.memory⟩,
      Except.ok_bind, subI64_eq_ok.mpr ⟨rfl, by omega, hrange.cacheMemory⟩]
    simp only [Except.ok_bind, hgpus]
    rfl

/-- An allocation of amounts that the casts keep succeeds when the check does and it takes slots. -/
theorem serves_iff (hcast : req.Castable) : nr.Serves req c ↔
    nr.Fits req c ∧ nr.gpus.TakesSlots req.gpu := by
  constructor
  · rintro ⟨g, rest, h⟩
    obtain ⟨hfits, -, gpus, left, hgpus, -⟩ := alloc_eq_ok_iff.mp h
    exact ⟨hfits, ((GPUResourceMap.alloc_ok_iff hcast.contexts).mp ⟨_, _, hgpus⟩).2⟩
  · rintro ⟨hfits, hslots⟩
    obtain ⟨hmem, hcache⟩ := hcast.eq
    obtain ⟨-, -, -, -, hids⟩ := fits_iff.mp hfits
    obtain ⟨gpus, left, hgpus⟩ := (GPUResourceMap.alloc_ok_iff hcast.contexts).mpr ⟨hids, hslots⟩
    exact ⟨_, _, alloc_eq_ok_iff.mpr ⟨hfits, ⟨by omega, by omega⟩, gpus, left, hgpus, rfl, rfl⟩⟩

instance : Decidable (nr.Serves req c) :=
  decidable_of_iff ((nr.alloc req c).toOption.any (fun r => r.1.toOption.isSome) = true) <| by
    unfold Serves
    rcases nr.alloc req c with e | ⟨e | g, rest⟩
    · exact ⟨fun h => (nomatch h), fun ⟨_, _, h⟩ => (nomatch h)⟩
    · exact ⟨fun h => (nomatch h), fun ⟨_, _, h⟩ => (nomatch h)⟩
    · exact ⟨fun _ => ⟨g, rest, rfl⟩, fun _ => rfl⟩

/-- Giving back what a standby pod was allocated adds its memory and its cache. -/
theorem add_standby {nr₀ nr₁ pod : NodeResources} {standby : Resources}
    (hgpu : standby.gpu.gpuCount = 0) (h : nr₀.alloc standby c = .ok (.ok pod, nr₁))
    (htype : nr.gpuType = nr₀.gpuType) (hslot : nr.gpus.slotSize = nr₀.gpus.slotSize)
    (hcast : standby.Castable)
    (hmem : nr.memory + standby.memory.toNat < 9223372036854775808)
    (hcache : nr.cacheMemory + standby.cacheMemory.toNat < 9223372036854775808) :
    nr.add pod = .ok { nr with
      memory := nr.memory + asI64 standby.memory
      cacheMemory := nr.cacheMemory + asI64 standby.cacheMemory } := by
  obtain ⟨-, -, gpus, left, hgpus, rfl, -⟩ := alloc_eq_ok_iff.mp h
  have hcan : nr₀.gpus.canAlloc standby.gpu c = .ok (some []) := if_pos hgpu
  have hempty : nr₀.gpus.alloc standby.gpu c = .ok
      (.ok { totalSlotCnt := nr₀.gpus.totalSlotCnt, slotSize := nr₀.gpus.slotSize }, nr₀.gpus) := by
    unfold GPUResourceMap.alloc
    rw [hcan, Except.ok_bind]
    simp only [if_pos hgpu]
    rfl
  obtain ⟨rfl, -⟩ := Prod.mk.inj (Except.ok.inj (hempty.symm.trans hgpus)) |>.imp_left Except.ok.inj
  have hgpus' : nr.gpus.add { totalSlotCnt := nr₀.gpus.totalSlotCnt, slotSize := nr₀.gpus.slotSize }
      = .ok nr.gpus := by
    unfold GPUResourceMap.add
    rw [show (∅ : BTreeMap ℤ GPUAlloc).toList = [] from rfl, List.foldlM_nil, ← hslot]
    simp only [ite_self]
    rfl
  obtain ⟨hmemory, hcacheMemory⟩ := hcast.eq
  unfold add
  rw [if_pos htype, hgpus', Except.ok_bind]
  dsimp only
  rw [addI64_eq_ok.mpr ⟨rfl, by omega, by omega⟩, Except.ok_bind,
    addI64_eq_ok.mpr ⟨rfl, by omega, by omega⟩]
  rfl

end NodeResources

namespace SchedulerHandler

variable {s : SchedulerHandler} {fr ready standby req : Resources} {f n : String}

/-- What the check asks for, in `i64`: what the resumed pod needs beyond the standby one, and not
less than nothing. -/
theorem asI64_reqResumeResource (hready : s.readyResource fr f n = .ok ready)
    (hstandby : s.standyResource f n = .ok standby)
    (hreq : s.reqResumeResource fr f n = .ok req)
    (hcast : ready.memory.toNat < 9223372036854775808) :
    (req.cpu = ready.cpu ∧ req.gpu = ready.gpu ∧
      asI64 req.memory = asI64 ready.memory - asI64 standby.memory
        + (standby.memory.toNat - ready.memory.toNat : ℕ) ∧
      asI64 req.cacheMemory = asI64 ready.cacheMemory - asI64 standby.cacheMemory) ∧
    standby.gpu.gpuCount = 0 ∧ standby.memory.toNat < 9223372036854775808 ∧
      standby.cacheMemory.toNat ≤ ready.cacheMemory.toNat ∧
      ready.cacheMemory.toNat < 9223372036854775808 ∧ ready.gpu.contextCount = 1 := by
  have hpow : (2 : ℕ) ^ 63 = 9223372036854775808 := by decide
  obtain ⟨snapshot, hs⟩ : ∃ snapshot, s.snapshotOf f n = .ok snapshot := by
    obtain ⟨snapshot, hs, -⟩ := Except.bind_eq_ok.mp hready
    exact ⟨snapshot, hs⟩
  obtain ⟨ready', standby', hready', hstandby', rfl⟩ := reqResumeResource_ok_iff.mp hreq
  obtain rfl := Except.ok.inj (hready.symm.trans hready')
  obtain rfl := Except.ok.inj (hstandby.symm.trans hstandby')
  obtain ⟨c, hc, -, rfl⟩ := (readyResource_ok_iff hs).mp hready
  obtain ⟨m, c', hm, hc', rfl⟩ := (standyResource_ok_iff hs).mp hstandby
  have hstandbySmall := SnapshotInfo.standbyMemory_small hm
  have hsmall : c.toNat < 2 ^ 63 := roundUpMb_small hc
  -- the standby pod never caches more than the ready one
  have hle : c'.toNat ≤ c.toNat := by
    rcases SnapshotInfo.standyCacheMemory_of_ready hc with h | h <;>
      obtain rfl := Except.ok.inj (h.symm.trans hc')
    · exact Nat.le_refl _
    · exact Nat.zero_le _
  have hcache := asI64_saturating (Nat.lt_of_le_of_lt hle hsmall) (.inl hsmall)
  rw [Nat.sub_eq_zero_of_le hle] at hcache
  rw [hpow] at hstandbySmall hsmall
  exact ⟨⟨rfl, rfl, asI64_saturating (SnapshotInfo.standbyMemory_small hm) (.inl (by rw [hpow]; exact hcast)),
    hcache.trans (add_zero _)⟩, rfl, hstandbySmall, hle, hsmall, rfl⟩

/-- **The check and the allocation of a resume.** With the share of the standby pod given back,
the allocation succeeds when the check passes; the check asks in addition that the free memory is
not negative when the standby pod holds more memory than the ready one. What is left differs by
what the standby pod holds too much. The sizes of the function are kept by the casts to `i64`, and
the node with the share of the standby pod is in range. -/
theorem fits_req_iff_serves_ready {nr nr₀ nr₁ pod : NodeResources}
    (hready : s.readyResource fr f n = .ok ready)
    (hstandby : s.standyResource f n = .ok standby)
    (hreq : s.reqResumeResource fr f n = .ok req)
    (hpod : nr₀.alloc standby false = .ok (.ok pod, nr₁))
    (htype : nr.gpuType = nr₀.gpuType) (hslot : nr.gpus.slotSize = nr₀.gpus.slotSize)
    (hmem : ready.memory.toNat < 9223372036854775808)
    (hrange : nr.memory + standby.memory.toNat < 9223372036854775808 ∧
      nr.cacheMemory + standby.cacheMemory.toNat < 9223372036854775808) :
    ∃ freed, nr.add pod = .ok freed ∧
      (nr.Fits req false ∧ nr.gpus.TakesSlots ready.gpu ↔
        freed.Serves ready false ∧ (ready.memory < standby.memory → 0 ≤ nr.memory)) ∧
      ∀ g l g' l', nr.alloc req false = .ok (.ok g, l) →
        freed.alloc ready false = .ok (.ok g', l') →
        l' = { l with memory := l.memory + (standby.memory.toNat - ready.memory.toNat : ℕ) } := by
  obtain ⟨⟨hcpu, hgpu, hreqMem, hreqCache⟩, hcount, hstandbyMem, hle, hreadyCache, hctx⟩ :=
    asI64_reqResumeResource hready hstandby hreq hmem
  have hstandbyCast : standby.Castable :=
    ⟨hstandbyMem, Nat.lt_of_le_of_lt hle hreadyCache, .inl hcount⟩
  have hreadyCast : ready.Castable := ⟨hmem, hreadyCache, .inr (by rw [hctx]; decide)⟩
  refine ⟨_, NodeResources.add_standby hcount hpod htype hslot hstandbyCast hrange.1 hrange.2, ?_, ?_⟩
  · rw [NodeResources.serves_iff hreadyCast, NodeResources.fits_iff, NodeResources.fits_iff, hcpu,
      hgpu, hreqMem, hreqCache]
    have hiff : asI64 ready.memory - asI64 standby.memory
          + (standby.memory.toNat - ready.memory.toNat : ℕ) ≤ nr.memory ↔
        asI64 ready.memory ≤ nr.memory + asI64 standby.memory ∧
          (ready.memory < standby.memory → 0 ≤ nr.memory) := by
      rw [UInt64.lt_iff_toNat_lt, hstandbyCast.eq.1, hreadyCast.eq.1]
      omega
    have hiff' : asI64 ready.cacheMemory - asI64 standby.cacheMemory ≤ nr.cacheMemory ↔
        asI64 ready.cacheMemory ≤ nr.cacheMemory + asI64 standby.cacheMemory := by
      omega
    rw [hiff, hiff']
    constructor
    · rintro ⟨⟨hc, ⟨hm, hroom⟩, hcm, ht, hids⟩, hslots⟩
      exact ⟨⟨⟨hc, hm, hcm, ht, hids⟩, hslots⟩, hroom⟩
    · rintro ⟨⟨⟨hc, hm, hcm, ht, hids⟩, hslots⟩, hroom⟩
      exact ⟨⟨hc, ⟨hm, hroom⟩, hcm, ht, hids⟩, hslots⟩
  · intro g l g' l' h h'
    obtain ⟨-, -, gpus, left, hgpus, -, rfl⟩ := NodeResources.alloc_eq_ok_iff.mp h
    obtain ⟨-, -, gpus', left', hgpus', -, rfl⟩ := NodeResources.alloc_eq_ok_iff.mp h'
    rw [hgpu] at hgpus
    obtain ⟨-, rfl⟩ := Prod.mk.inj (Except.ok.inj (hgpus.symm.trans hgpus'))
    rw [hreqMem, hreqCache]
    simp only [NodeResources.mk.injEq, true_and, and_true]
    constructor <;> omega

/-- The check agrees with the allocation and leaves the same amount: a function asking for `fr`, its
snapshot, the node as it is and as it was when the standby pod was made. -/
def ResumeAgrees (fr : Resources) (snapshot : ContainerSnapshot) (nr nr₀ : NodeResources) : Prop :=
  ∀ ready standby req pod nr₁,
    (withSnapshot snapshot).readyResource fr snapshot.funckey snapshot.nodename = .ok ready →
    (withSnapshot snapshot).standyResource snapshot.funckey snapshot.nodename = .ok standby →
    (withSnapshot snapshot).reqResumeResource fr snapshot.funckey snapshot.nodename = .ok req →
    nr₀.alloc standby false = .ok (.ok pod, nr₁) →
    ∃ freed, nr.add pod = .ok freed ∧ (nr.Fits req false ↔ freed.Serves ready false) ∧
      ∀ g l g' l', nr.alloc req false = .ok (.ok g, l) →
        freed.alloc ready false = .ok (.ok g', l') → l' = l

/-- A node with the given free memory, and one free GPU. -/
def nodeWith (memory : ℤ) : NodeResources where
  memory
  cacheMemory := 8192
  gpus :=
    { totalSlotCnt := 8
      map := (∅ : BTreeMap ℤ GPUAlloc).insert 0 ⟨1, 8, 1⟩
      slotSize := 1073741824 }

/-- What a standby pod of 2048 MB is allocated on such a node. -/
def standbyPod : NodeResources where
  memory := 2048
  gpus := { totalSlotCnt := 8, slotSize := 1073741824 }

/-- A resumed pod of the given size. -/
def readyOf (memory gpuCount : UInt64) : Resources :=
  { memory, readyMemory := memory, gpu := { gpuCount, contextCount := 1 } }

theorem fits_req_iff_serves_ready_half : ∃ freed, (nodeWith 1024).add standbyPod = .ok freed ∧
    ((nodeWith 1024).Fits { readyOf 4096 0 with memory := 2048 } false
        ∧ (nodeWith 1024).gpus.TakesSlots (readyOf 4096 0).gpu ↔
      freed.Serves (readyOf 4096 0) false ∧ ((4096 : UInt64) < 2048 → 0 ≤ (nodeWith 1024).memory)) ∧
    ∀ g l g' l', (nodeWith 1024).alloc { readyOf 4096 0 with memory := 2048 } false
        = .ok (.ok g, l) →
      freed.alloc (readyOf 4096 0) false = .ok (.ok g', l') →
      l' = { l with memory := l.memory + ((2048 : UInt64).toNat - (4096 : UInt64).toNat : ℕ) } := by
  have hready : (withSnapshot (sizedSnapshot 0 2147483648)).readyResource { readyMemory := 4096 }
      "acme/prod/llama/1" "node1" = .ok (readyOf 4096 0) := by decide +kernel
  have hstandby : (withSnapshot (sizedSnapshot 0 2147483648)).standyResource "acme/prod/llama/1"
      "node1" = .ok { memory := 2048 } := by decide +kernel
  have hreq : (withSnapshot (sizedSnapshot 0 2147483648)).reqResumeResource { readyMemory := 4096 }
      "acme/prod/llama/1" "node1" = .ok { readyOf 4096 0 with memory := 2048 } := by decide +kernel
  have hpod : (nodeWith 4096).alloc { memory := 2048 } false
      = .ok (.ok standbyPod, nodeWith 2048) := by decide +kernel
  exact fits_req_iff_serves_ready hready hstandby hreq hpod rfl rfl (by decide) (by decide)

/-- The check or the allocation fails on an explicit input. -/
theorem not_resumeAgrees {fr ready standby req : Resources} {snapshot : ContainerSnapshot}
    {nr nr₀ nr₁ pod : NodeResources}
    (hready : (withSnapshot snapshot).readyResource fr snapshot.funckey snapshot.nodename = .ok ready)
    (hstandby : (withSnapshot snapshot).standyResource snapshot.funckey snapshot.nodename
      = .ok standby)
    (hreq : (withSnapshot snapshot).reqResumeResource fr snapshot.funckey snapshot.nodename = .ok req)
    (hpod : nr₀.alloc standby false = .ok (.ok pod, nr₁))
    (h : ¬ ∃ freed, nr.add pod = .ok freed ∧ (nr.Fits req false ↔ freed.Serves ready false)) :
    ¬ ResumeAgrees fr snapshot nr nr₀ := by
  intro hagrees
  obtain ⟨freed, hfreed, hiff, -⟩ := hagrees _ _ _ _ _ hready hstandby hreq hpod
  exact h ⟨freed, hfreed, hiff⟩

/-- A function whose ready memory is less than what its standby pod holds, two whose ready memory
is beyond the sign bit, one that asks for a GPU without video memory, and a node that has too much
memory to be given more. -/
theorem resume_disagrees :
    ¬ ResumeAgrees { readyMemory := 1024 } (sizedSnapshot 0 2147483648) (nodeWith (-512))
        (nodeWith 4096) ∧
      ¬ ResumeAgrees { readyMemory := 9223372036854775808 } (sizedSnapshot 0 2147483648)
        (nodeWith (-4096)) (nodeWith 4096) ∧
      ¬ ResumeAgrees { readyMemory := 9223372036854777856 } (sizedSnapshot 0 2147483648)
        (nodeWith 0) (nodeWith 4096) ∧
      ¬ ResumeAgrees { readyMemory := 4096, gpu := { gpuCount := 1 } } (sizedSnapshot 0 2147483648)
        (nodeWith 4096) (nodeWith 4096) ∧
      ¬ ResumeAgrees { readyMemory := 4096 } (sizedSnapshot 0 2147483648)
        (nodeWith 9223372036854775807) (nodeWith 4096) := by
  have hstandby : (withSnapshot (sizedSnapshot 0 2147483648)).standyResource "acme/prod/llama/1"
      "node1" = .ok { memory := 2048 } := by decide +kernel
  have hpod : (nodeWith 4096).alloc { memory := 2048 } false = .ok (.ok standbyPod, nodeWith 2048) := by
    decide +kernel
  have hreq : ∀ {fr r}, (withSnapshot (sizedSnapshot 0 2147483648)).readyResource fr
      "acme/prod/llama/1" "node1" = .ok r →
      (withSnapshot (sizedSnapshot 0 2147483648)).reqResumeResource fr "acme/prod/llama/1" "node1"
        = .ok { r with
            memory := if 2048 < r.memory then r.memory - 2048 else 0
            cacheMemory := if 0 < r.cacheMemory then r.cacheMemory - 0 else 0 } := fun hr =>
    reqResumeResource_ok_iff.mpr ⟨_, _, hr, hstandby, rfl⟩
  have hfails : ∀ {readyMemory gpuCount : UInt64} {m : ℤ}, readyMemory ≠ 0 →
      (((nodeWith m).add standbyPod).toOption.any fun freed =>
        decide ((nodeWith m).Fits { readyOf readyMemory gpuCount with
            memory := if 2048 < readyMemory then readyMemory - 2048 else 0 } false
          ↔ freed.Serves (readyOf readyMemory gpuCount) false)) = false →
      ¬ ResumeAgrees { readyMemory, gpu := { gpuCount } } (sizedSnapshot 0 2147483648) (nodeWith m)
        (nodeWith 4096) := by
    intro readyMemory gpuCount m h0 hrun
    have hready : (withSnapshot (sizedSnapshot 0 2147483648)).readyResource
        { readyMemory, gpu := { gpuCount } } "acme/prod/llama/1" "node1"
        = .ok (readyOf readyMemory gpuCount) := by
      have hpos : 0 < readyMemory := UInt64.pos_iff_ne_zero.mpr h0
      refine (readyResource_ok_iff (snapshotOf_withSnapshot (sizedSnapshot 0 2147483648))).mpr
        ⟨0, by decide, fun hzero => absurd hzero h0, ?_⟩
      rw [if_pos hpos]
      rfl
    refine not_resumeAgrees hready hstandby (hreq hready) hpod ?_
    rintro ⟨freed, hfreed, hiff⟩
    rw [hfreed] at hrun
    exact absurd hiff (of_decide_eq_false hrun)
  exact ⟨hfails (by decide) (by decide +kernel), hfails (by decide) (by decide +kernel),
    hfails (by decide) (by decide +kernel), hfails (by decide) (by decide +kernel),
    hfails (by decide) (by decide +kernel)⟩

end SchedulerHandler

end Inferx
