import Inferx.Metastore.Objects
import Inferx.Skill.Response

/-!
# Policies as they are requested

A function policy may be requested in part. Before it is stored it is made a whole one:
what is not given is the default of the namespace. The record of what may be given and
the record that is stored have their fields listed separately, and one field of the
second is missing in the first.
-/

namespace Inferx.FuncPolicy

open Gateway (Value Object Number)
open Skill (structOf fieldOf optionOf)
open Metastore (DataObject)

/-! ## Floats -/

/-- The exponent is not all ones. -/
def isFinite (bits : UInt64) : Bool := (bits >>> 52) &&& 0x7FF != 0x7FF

/-- A float that JSON can hold. -/
structure F64 where
  bits : UInt64
  finite : isFinite bits = true
  deriving DecidableEq

/-- `as f64`, of integers. -/
structure AsF64 where
  ofU64 : UInt64 → F64
  ofI64 : Int64 → F64

/-- A `Number` holds finite floats only. -/
def readF64 (cast : AsF64) : Value → Option F64
  | .number (.posInt n) => some (cast.ofU64 n)
  | .number (.negInt n) => some (cast.ofI64 n)
  | .number (.float bits) => if h : isFinite bits = true then some ⟨bits, h⟩ else none
  | _ => none

def writeF64 (x : F64) : Value := .number (.float x.bits)

/-! ## The records -/

structure WaitQueueRatio where
  waitRatio : F64
  deriving DecidableEq

inductive ScaleOutPolicy where
  | waitQueueRatio (r : WaitQueueRatio)
  deriving DecidableEq

structure RuntimeConfig where
  graphSync : Bool
  deriving DecidableEq

structure FuncPolicySpec where
  nvidiaReplica : UInt64
  minReplica : UInt64
  maxReplica : UInt64
  standbyPerNode : UInt64
  parallel : UInt64
  queueLen : UInt64
  queueTimeout : F64
  scaleoutPolicy : ScaleOutPolicy
  scaleinTimeout : F64
  runtimeConfig : RuntimeConfig
  deriving DecidableEq

structure PartialFuncPolicySpec where
  minReplica : Option UInt64
  maxReplica : Option UInt64
  standbyPerNode : Option UInt64
  parallel : Option UInt64
  queueLen : Option UInt64
  queueTimeout : Option F64
  scaleoutPolicy : Option ScaleOutPolicy
  scaleinTimeout : Option F64
  runtimeConfig : Option RuntimeConfig

/-- `VIRTUAL_ENDPOINTS_NAMESPACE`. -/
def virtualEndpointsNamespace : String := "endpoints"

/-- `DEFAULT_QUEUE_TIMEOUT`, thirty seconds. -/
def defaultQueueTimeout : F64 := ⟨0x403E000000000000, by decide⟩

/-- `DEFAULT_SCALEIN_TIMEOUT`, one second. -/
def defaultScaleinTimeout : F64 := ⟨0x3FF0000000000000, by decide⟩

/-- `DEFAULT_QUEUE_RATIO`, a tenth. -/
def defaultScaleOutPolicy : ScaleOutPolicy := .waitQueueRatio ⟨⟨0x3FB999999999999A, by decide⟩⟩

def defaultRuntimeConfig : RuntimeConfig := { graphSync := false }

/-- `FuncPolicySpec::default`. -/
def FuncPolicySpec.default : FuncPolicySpec where
  nvidiaReplica := 0
  minReplica := 0
  maxReplica := 1
  standbyPerNode := 1
  parallel := 50
  queueLen := 100
  queueTimeout := defaultQueueTimeout
  scaleoutPolicy := defaultScaleOutPolicy
  scaleinTimeout := defaultScaleinTimeout
  runtimeConfig := defaultRuntimeConfig

/-! ## Reading and writing -/

section Read

variable (cast : AsF64)

def readWaitQueueRatio (v : Value) : Option WaitQueueRatio := do
  structOf v 1
  let waitRatio ← fieldOf v 0 "wait_ratio" none none (readF64 cast)
  return ⟨waitRatio⟩

/-- A variant with a value is an object with one member. -/
def readScaleOutPolicy : Value → Option ScaleOutPolicy
  | .object [(variant, v)] =>
    if variant = "WaitQueueRatio" then (readWaitQueueRatio cast v).map .waitQueueRatio else none
  | _ => none

def readRuntimeConfig (v : Value) : Option RuntimeConfig := do
  structOf v 1
  let graphSync ← fieldOf v 0 "graph_sync" (some false) (some false) Value.asBool
  return ⟨graphSync⟩

def readFuncPolicySpec (v : Value) : Option FuncPolicySpec := do
  structOf v 10
  let nvidiaReplica ← fieldOf v 0 "nvidia_replica" (some 0) (some 0) Value.asU64
  let minReplica ← fieldOf v 1 "min_replica" none none Value.asU64
  let maxReplica ← fieldOf v 2 "max_replica" none none Value.asU64
  let standbyPerNode ← fieldOf v 3 "standby_per_node" none none Value.asU64
  let parallel ← fieldOf v 4 "parallel" (some 50) (some 50) Value.asU64
  let queueLen ← fieldOf v 5 "queue_len" (some 100) (some 100) Value.asU64
  let queueTimeout ← fieldOf v 6 "queue_timeout" (some defaultQueueTimeout)
    (some defaultQueueTimeout) (readF64 cast)
  let scaleoutPolicy ← fieldOf v 7 "scaleout_policy" (some defaultScaleOutPolicy)
    (some defaultScaleOutPolicy) (readScaleOutPolicy cast)
  let scaleinTimeout ← fieldOf v 8 "scalein_timeout" (some defaultScaleinTimeout)
    (some defaultScaleinTimeout) (readF64 cast)
  let runtimeConfig ← fieldOf v 9 "runtime_config" (some defaultRuntimeConfig)
    (some defaultRuntimeConfig) readRuntimeConfig
  return { nvidiaReplica, minReplica, maxReplica, standbyPerNode, parallel, queueLen, queueTimeout,
           scaleoutPolicy, scaleinTimeout, runtimeConfig }

/-- A field that may be left out, or null. -/
def optionalOf {α : Type} (v : Value) (i : ℕ) (name : String) (read : Value → Option α) :
    Option (Option α) :=
  fieldOf v i name (some none) (some none) (optionOf read)

def readPartialFuncPolicySpec (v : Value) : Option PartialFuncPolicySpec := do
  structOf v 9
  let minReplica ← optionalOf v 0 "min_replica" Value.asU64
  let maxReplica ← optionalOf v 1 "max_replica" Value.asU64
  let standbyPerNode ← optionalOf v 2 "standby_per_node" Value.asU64
  let parallel ← optionalOf v 3 "parallel" Value.asU64
  let queueLen ← optionalOf v 4 "queue_len" Value.asU64
  let queueTimeout ← optionalOf v 5 "queue_timeout" (readF64 cast)
  let scaleoutPolicy ← optionalOf v 6 "scaleout_policy" (readScaleOutPolicy cast)
  let scaleinTimeout ← optionalOf v 7 "scalein_timeout" (readF64 cast)
  let runtimeConfig ← optionalOf v 8 "runtime_config" readRuntimeConfig
  return { minReplica, maxReplica, standbyPerNode, parallel, queueLen, queueTimeout, scaleoutPolicy,
           scaleinTimeout, runtimeConfig }

end Read

def writeCount (n : UInt64) : Value := .number (.posInt n)

def writeScaleOutPolicy : ScaleOutPolicy → Value
  | .waitQueueRatio r => .object [("WaitQueueRatio", .object [("wait_ratio", writeF64 r.waitRatio)])]

/-- `to_value`. -/
def writeFuncPolicySpec (p : FuncPolicySpec) : Value :=
  .object
    [("nvidia_replica", writeCount p.nvidiaReplica),
     ("min_replica", writeCount p.minReplica),
     ("max_replica", writeCount p.maxReplica),
     ("standby_per_node", writeCount p.standbyPerNode),
     ("parallel", writeCount p.parallel),
     ("queue_len", writeCount p.queueLen),
     ("queue_timeout", writeF64 p.queueTimeout),
     ("scaleout_policy", writeScaleOutPolicy p.scaleoutPolicy),
     ("scalein_timeout", writeF64 p.scaleinTimeout),
     ("runtime_config", .object [("graph_sync", .bool p.runtimeConfig.graphSync)])]

/-! ## Normalisation -/

/-- `Normalize`. -/
def PartialFuncPolicySpec.normalize (partialSpec : PartialFuncPolicySpec) (nameSpace : String) :
    FuncPolicySpec :=
  let policy := FuncPolicySpec.default
  let policy := if nameSpace = virtualEndpointsNamespace then { policy with standbyPerNode := 0 } else policy
  { policy with
    minReplica := partialSpec.minReplica.getD policy.minReplica
    maxReplica := partialSpec.maxReplica.getD policy.maxReplica
    standbyPerNode := partialSpec.standbyPerNode.getD policy.standbyPerNode
    parallel := partialSpec.parallel.getD policy.parallel
    queueLen := partialSpec.queueLen.getD policy.queueLen
    queueTimeout := partialSpec.queueTimeout.getD policy.queueTimeout
    scaleoutPolicy := partialSpec.scaleoutPolicy.getD policy.scaleoutPolicy
    scaleinTimeout := partialSpec.scaleinTimeout.getD policy.scaleinTimeout
    runtimeConfig := partialSpec.runtimeConfig.getD policy.runtimeConfig }

/-- `NormalizeFuncPolicyDataObject`. -/
def normalizeFuncPolicyDataObject (cast : AsF64) (obj : DataObject Value) : Option (DataObject Value) :=
  (readPartialFuncPolicySpec cast obj.object).map fun partialSpec =>
    { obj with object := writeFuncPolicySpec (partialSpec.normalize obj.nameSpace) }

/-! ## What is asked for -/

/-- What a request gives: any of the fields of a policy. -/
structure PolicyRequest extends PartialFuncPolicySpec where
  nvidiaReplica : Option UInt64

/-- What an object asks for; none when a field is given that cannot be read. -/
def readRequest (cast : AsF64) (o : Object) : Option PolicyRequest := do
  let nvidiaReplica ← optionalOf (.object o) 0 "nvidia_replica" Value.asU64
  let partialSpec ← readPartialFuncPolicySpec cast (.object o)
  return { partialSpec with nvidiaReplica }

/-- The policy that is asked for: the given values, and the defaults of the namespace. -/
def PolicyRequest.policy (r : PolicyRequest) (nameSpace : String) : FuncPolicySpec where
  nvidiaReplica := r.nvidiaReplica.getD 0
  minReplica := r.minReplica.getD 0
  maxReplica := r.maxReplica.getD 1
  standbyPerNode := r.standbyPerNode.getD (if nameSpace = virtualEndpointsNamespace then 0 else 1)
  parallel := r.parallel.getD 50
  queueLen := r.queueLen.getD 100
  queueTimeout := r.queueTimeout.getD defaultQueueTimeout
  scaleoutPolicy := r.scaleoutPolicy.getD defaultScaleOutPolicy
  scaleinTimeout := r.scaleinTimeout.getD defaultScaleinTimeout
  runtimeConfig := r.runtimeConfig.getD defaultRuntimeConfig

/-- An object yields a policy. -/
def Yields (cast : AsF64) (obj : DataObject Value) (p : FuncPolicySpec) : Prop :=
  ∃ n, normalizeFuncPolicyDataObject cast obj = some n ∧ readFuncPolicySpec cast n.object = some p

/-- **What is given is kept.** -/
structure KeepsGiven (cast : AsF64) (obj : DataObject Value) (r : PolicyRequest) : Prop where
  /-- a whole policy is kept -/
  complete : ∀ p, readFuncPolicySpec cast obj.object = some p → Yields cast obj p
  /-- what is not given is the default of the namespace -/
  filled : Yields cast obj (r.policy obj.nameSpace)
  /-- twice is once -/
  again : ∀ n, normalizeFuncPolicyDataObject cast obj = some n →
    normalizeFuncPolicyDataObject cast n = some n

/-! ## Round trips -/

section RoundTrip

variable {cast : AsF64}

theorem readF64_writeF64 (cast : AsF64) (x : F64) : readF64 cast (writeF64 x) = some x := by
  unfold writeF64 readF64
  exact dif_pos x.finite

theorem readScaleOutPolicy_write (p : ScaleOutPolicy) :
    readScaleOutPolicy cast (writeScaleOutPolicy p) = some p := by
  obtain ⟨⟨x⟩⟩ := p
  have hread : readWaitQueueRatio cast (.object [("wait_ratio", writeF64 x)]) = some ⟨x⟩ := by
    show (fieldOf (.object [("wait_ratio", writeF64 x)]) 0 "wait_ratio" none none (readF64 cast)).bind _ = _
    have hfield : fieldOf (.object [("wait_ratio", writeF64 x)]) 0 "wait_ratio" none none (readF64 cast)
        = some x := readF64_writeF64 cast x
    rw [hfield]
    rfl
  show (if "WaitQueueRatio" = "WaitQueueRatio" then
    (readWaitQueueRatio cast (.object [("wait_ratio", writeF64 x)])).map ScaleOutPolicy.waitQueueRatio
      else none) = _
  rw [if_pos rfl, hread]
  rfl

/-- Every field that is given. -/
def FuncPolicySpec.given (p : FuncPolicySpec) : PartialFuncPolicySpec where
  minReplica := some p.minReplica
  maxReplica := some p.maxReplica
  standbyPerNode := some p.standbyPerNode
  parallel := some p.parallel
  queueLen := some p.queueLen
  queueTimeout := some p.queueTimeout
  scaleoutPolicy := some p.scaleoutPolicy
  scaleinTimeout := some p.scaleinTimeout
  runtimeConfig := some p.runtimeConfig

/-- What is written is read. -/
theorem readFuncPolicySpec_write (p : FuncPolicySpec) :
    readFuncPolicySpec cast (writeFuncPolicySpec p) = some p := by
  have htimeout : fieldOf (writeFuncPolicySpec p) 6 "queue_timeout" (some defaultQueueTimeout)
      (some defaultQueueTimeout) (readF64 cast) = some p.queueTimeout := readF64_writeF64 cast _
  have hscaleout : fieldOf (writeFuncPolicySpec p) 7 "scaleout_policy" (some defaultScaleOutPolicy)
      (some defaultScaleOutPolicy) (readScaleOutPolicy cast) = some p.scaleoutPolicy :=
    readScaleOutPolicy_write _
  have hscalein : fieldOf (writeFuncPolicySpec p) 8 "scalein_timeout" (some defaultScaleinTimeout)
      (some defaultScaleinTimeout) (readF64 cast) = some p.scaleinTimeout := readF64_writeF64 cast _
  unfold readFuncPolicySpec
  rw [htimeout, hscaleout, hscalein]
  rfl

theorem optionalOf_some {α : Type} {v x : Value} {i : ℕ} {name : String} {read : Value → Option α}
    {a : α} (hv : fieldOf v i name none none some = some x) (hread : read x = some a)
    (hnull : read .null = none) : optionalOf v i name read = some (some a) := by
  have hx : x ≠ .null := by
    rintro rfl
    rw [hnull] at hread
    cases hread
  have hopt : optionOf read x = some (some a) := by
    unfold optionOf
    split
    next => exact absurd rfl hx
    next => rw [hread, Option.map_some]
  unfold optionalOf
  unfold fieldOf at hv ⊢
  cases v with
  | object o =>
    dsimp only at hv ⊢
    rcases hget : Object.get o name with _ | y
    · rw [hget] at hv
      cases hv
    · rw [hget] at hv
      obtain rfl := Option.some.inj hv
      exact hopt
  | array l =>
    dsimp only at hv ⊢
    rcases hget : l[i]? with _ | y
    · rw [hget] at hv
      cases hv
    · rw [hget] at hv
      obtain rfl := Option.some.inj hv
      exact hopt
  | null => cases hv
  | bool b => cases hv
  | number n => cases hv
  | string t => cases hv

theorem readPartial_write (p : FuncPolicySpec) :
    readPartialFuncPolicySpec cast (writeFuncPolicySpec p) = some p.given := by
  have htimeout : optionalOf (writeFuncPolicySpec p) 5 "queue_timeout" (readF64 cast) =
      some (some p.queueTimeout) := optionalOf_some rfl (readF64_writeF64 cast _) rfl
  have hscaleout : optionalOf (writeFuncPolicySpec p) 6 "scaleout_policy" (readScaleOutPolicy cast) =
      some (some p.scaleoutPolicy) := optionalOf_some rfl (readScaleOutPolicy_write _) rfl
  have hscalein : optionalOf (writeFuncPolicySpec p) 7 "scalein_timeout" (readF64 cast) =
      some (some p.scaleinTimeout) := optionalOf_some rfl (readF64_writeF64 cast _) rfl
  unfold readPartialFuncPolicySpec
  rw [htimeout, hscaleout, hscalein]
  rfl

/-! ## What becomes of a request -/

/-- One field is not looked at. -/
theorem normalize_eq (r : PolicyRequest) (nameSpace : String) :
    r.toPartialFuncPolicySpec.normalize nameSpace = { r.policy nameSpace with nvidiaReplica := 0 } := by
  unfold PartialFuncPolicySpec.normalize PolicyRequest.policy
  by_cases h : nameSpace = virtualEndpointsNamespace
  · simp only [if_pos h]
    rfl
  · simp only [if_neg h]
    rfl

theorem normalize_given (p : FuncPolicySpec) (nameSpace : String) :
    p.given.normalize nameSpace = { p with nvidiaReplica := 0 } := by
  unfold PartialFuncPolicySpec.normalize
  by_cases h : nameSpace = virtualEndpointsNamespace
  · simp only [if_pos h]
    rfl
  · simp only [if_neg h]
    rfl

theorem nvidiaReplica_normalize (partialSpec : PartialFuncPolicySpec) (nameSpace : String) :
    (partialSpec.normalize nameSpace).nvidiaReplica = 0 := by
  unfold PartialFuncPolicySpec.normalize
  by_cases h : nameSpace = virtualEndpointsNamespace
  · simp only [if_pos h]
    rfl
  · simp only [if_neg h]
    rfl

theorem with_nvidiaReplica {p : FuncPolicySpec} (h : p.nvidiaReplica = 0) :
    { p with nvidiaReplica := 0 } = p := by
  rw [← h]

variable {obj : DataObject Value} {o : Object} {r : PolicyRequest}

theorem readPartial_of_request (h : readRequest cast o = some r) :
    readPartialFuncPolicySpec cast (.object o) = some r.toPartialFuncPolicySpec := by
  unfold readRequest at h
  obtain ⟨nvidia, -, h⟩ := Option.bind_eq_some_iff.mp h
  obtain ⟨partialSpec, hpartial, h⟩ := Option.bind_eq_some_iff.mp h
  obtain rfl := Option.some.inj h
  exact hpartial

/-- **What a request yields**: what it asks for, without the pods of the other runtime. -/
theorem yields_iff (hobj : obj.object = .object o) (h : readRequest cast o = some r)
    {p : FuncPolicySpec} :
    Yields cast obj p ↔ p = { r.policy obj.nameSpace with nvidiaReplica := 0 } := by
  have hn : normalizeFuncPolicyDataObject cast obj = some { obj with
      object := writeFuncPolicySpec { r.policy obj.nameSpace with nvidiaReplica := 0 } } := by
    unfold normalizeFuncPolicyDataObject
    rw [hobj, readPartial_of_request h, Option.map_some, normalize_eq]
  unfold Yields
  rw [hn]
  constructor
  · rintro ⟨n, hsome, hread⟩
    obtain rfl := Option.some.inj hsome
    exact Option.some.inj (hread.symm.trans (readFuncPolicySpec_write _))
  · rintro rfl
    exact ⟨_, rfl, readFuncPolicySpec_write _⟩

/-- A field that is read, and read as one that may be left out. -/
theorem eq_getD_of_field {α : Type} {i j : ℕ} {name : String} {noKey tooShort : Option α}
    {read : Value → Option α} {x d : α} {y : Option α} (hnull : read .null = none)
    (hd : noKey = none ∨ noKey = some d)
    (hx : fieldOf (.object o) i name noKey tooShort read = some x)
    (hy : optionalOf (.object o) j name read = some y) : x = y.getD d := by
  unfold optionalOf fieldOf at hy
  unfold fieldOf at hx
  dsimp only at hx hy
  rcases hget : Object.get o name with _ | v
  · rw [hget] at hx hy
    obtain rfl := Option.some.inj hy
    rcases hd with hd | hd
    · exact absurd (hd.symm.trans hx) nofun
    · exact Option.some.inj (hx.symm.trans hd)
  · rw [hget] at hx hy
    dsimp only at hx hy
    unfold optionOf at hy
    split at hy
    next =>
      rw [hnull] at hx
      cases hx
    next =>
      rw [hx, Option.map_some] at hy
      rw [← Option.some.inj hy]
      rfl

/-- A whole policy is what its object asks for. -/
theorem eq_policy_of_read (h : readRequest cast o = some r) {p : FuncPolicySpec}
    (hp : readFuncPolicySpec cast (.object o) = some p) (nameSpace : String) :
    p = r.policy nameSpace := by
  unfold readRequest at h
  obtain ⟨nvidia, hnvidia, h⟩ := Option.bind_eq_some_iff.mp h
  obtain ⟨partialSpec, hpartial, h⟩ := Option.bind_eq_some_iff.mp h
  obtain rfl := Option.some.inj h
  unfold readPartialFuncPolicySpec at hpartial
  obtain ⟨-, -, hpartial⟩ := Option.bind_eq_some_iff.mp hpartial
  obtain ⟨y₁, h₁, hpartial⟩ := Option.bind_eq_some_iff.mp hpartial
  obtain ⟨y₂, h₂, hpartial⟩ := Option.bind_eq_some_iff.mp hpartial
  obtain ⟨y₃, h₃, hpartial⟩ := Option.bind_eq_some_iff.mp hpartial
  obtain ⟨y₄, h₄, hpartial⟩ := Option.bind_eq_some_iff.mp hpartial
  obtain ⟨y₅, h₅, hpartial⟩ := Option.bind_eq_some_iff.mp hpartial
  obtain ⟨y₆, h₆, hpartial⟩ := Option.bind_eq_some_iff.mp hpartial
  obtain ⟨y₇, h₇, hpartial⟩ := Option.bind_eq_some_iff.mp hpartial
  obtain ⟨y₈, h₈, hpartial⟩ := Option.bind_eq_some_iff.mp hpartial
  obtain ⟨y₉, h₉, hpartial⟩ := Option.bind_eq_some_iff.mp hpartial
  obtain rfl := Option.some.inj hpartial
  unfold readFuncPolicySpec at hp
  obtain ⟨-, -, hp⟩ := Option.bind_eq_some_iff.mp hp
  obtain ⟨x₀, hx₀, hp⟩ := Option.bind_eq_some_iff.mp hp
  obtain ⟨x₁, hx₁, hp⟩ := Option.bind_eq_some_iff.mp hp
  obtain ⟨x₂, hx₂, hp⟩ := Option.bind_eq_some_iff.mp hp
  obtain ⟨x₃, hx₃, hp⟩ := Option.bind_eq_some_iff.mp hp
  obtain ⟨x₄, hx₄, hp⟩ := Option.bind_eq_some_iff.mp hp
  obtain ⟨x₅, hx₅, hp⟩ := Option.bind_eq_some_iff.mp hp
  obtain ⟨x₆, hx₆, hp⟩ := Option.bind_eq_some_iff.mp hp
  obtain ⟨x₇, hx₇, hp⟩ := Option.bind_eq_some_iff.mp hp
  obtain ⟨x₈, hx₈, hp⟩ := Option.bind_eq_some_iff.mp hp
  obtain ⟨x₉, hx₉, hp⟩ := Option.bind_eq_some_iff.mp hp
  obtain rfl := Option.some.inj hp
  unfold PolicyRequest.policy
  congr 1
  · exact eq_getD_of_field rfl (.inr rfl) hx₀ hnvidia
  · exact eq_getD_of_field rfl (.inl rfl) hx₁ h₁
  · exact eq_getD_of_field rfl (.inl rfl) hx₂ h₂
  · exact eq_getD_of_field rfl (.inl rfl) hx₃ h₃
  · exact eq_getD_of_field rfl (.inr rfl) hx₄ h₄
  · exact eq_getD_of_field rfl (.inr rfl) hx₅ h₅
  · exact eq_getD_of_field rfl (.inr rfl) hx₆ h₆
  · exact eq_getD_of_field rfl (.inr rfl) hx₇ h₇
  · exact eq_getD_of_field rfl (.inr rfl) hx₈ h₈
  · exact eq_getD_of_field rfl (.inr rfl) hx₉ h₉

/-- Normalising twice is normalising once, for every object. -/
theorem normalize_again {n : DataObject Value} (h : normalizeFuncPolicyDataObject cast obj = some n) :
    normalizeFuncPolicyDataObject cast n = some n := by
  unfold normalizeFuncPolicyDataObject at h ⊢
  obtain ⟨partialSpec, -, rfl⟩ := Option.map_eq_some_iff.mp h
  dsimp only
  rw [readPartial_write, Option.map_some, normalize_given,
    with_nvidiaReplica (nvidiaReplica_normalize partialSpec _)]

/-- **What is given is kept** exactly if it does not ask for pods of the other runtime. -/
theorem keepsGiven_iff (hobj : obj.object = .object o) (h : readRequest cast o = some r) :
    KeepsGiven cast obj r ↔ ∀ n, r.nvidiaReplica = some n → n = 0 := by
  have hpolicy : { r.policy obj.nameSpace with nvidiaReplica := 0 } = r.policy obj.nameSpace ↔
      r.nvidiaReplica.getD 0 = 0 :=
    ⟨fun heq => (congrArg FuncPolicySpec.nvidiaReplica heq).symm, fun h0 => with_nvidiaReplica h0⟩
  have hzero : r.nvidiaReplica.getD 0 = 0 ↔ ∀ n, r.nvidiaReplica = some n → n = 0 := by
    rcases r.nvidiaReplica with _ | n
    · simp
    · simp
  rw [← hzero, ← hpolicy]
  constructor
  · intro hkeeps
    exact ((yields_iff hobj h).mp hkeeps.filled).symm
  · intro heq
    refine ⟨fun p hp => ?_, (yields_iff hobj h).mpr heq.symm, fun n hn => normalize_again hn⟩
    rw [hobj] at hp
    exact (yields_iff hobj h).mpr ((eq_policy_of_read h hp _).trans heq.symm)

end RoundTrip

/-! ### Objects -/

/-- A request for two pods of the other runtime. -/
def samplePolicy (nvidia : UInt64) : Object :=
  [("nvidia_replica", writeCount nvidia), ("min_replica", writeCount 0), ("max_replica", writeCount 3),
    ("standby_per_node", writeCount 0)]

def sampleObject (nvidia : UInt64) : DataObject Value where
  objType := "funcpolicy"
  tenant := "acme"
  nameSpace := virtualEndpointsNamespace
  name := "llama"
  object := .object (samplePolicy nvidia)

/-- What it asks for. -/
def sampleRequest (nvidia : UInt64) : PolicyRequest where
  nvidiaReplica := some nvidia
  minReplica := some 0
  maxReplica := some 3
  standbyPerNode := some 0
  parallel := none
  queueLen := none
  queueTimeout := none
  scaleoutPolicy := none
  scaleinTimeout := none
  runtimeConfig := none

/-- Integers as zero: the sample has no floats. -/
def sampleCast : AsF64 := ⟨fun _ => ⟨0, by decide⟩, fun _ => ⟨0, by decide⟩⟩

theorem keepsGiven_zero : KeepsGiven sampleCast (sampleObject 0) (sampleRequest 0) ↔
    ∀ n, (sampleRequest 0).nvidiaReplica = some n → n = 0 :=
  keepsGiven_iff rfl rfl

/-- The number of these pods is reset. -/
theorem nvidia_replica_reset : ¬ ∀ (cast : AsF64) (obj : DataObject Value) (o : Object)
    (r : PolicyRequest), obj.object = .object o → readRequest cast o = some r → KeepsGiven cast obj r := by
  intro h
  obtain ⟨n, hn, hread⟩ := (h sampleCast (sampleObject 2) (samplePolicy 2) (sampleRequest 2) rfl
    rfl).filled
  have heq : n = _ := (Option.some.inj hn).symm
  rw [heq] at hread
  have hzero := congrArg (fun p => p.map FuncPolicySpec.nvidiaReplica) hread
  exact absurd hzero (by decide)

end Inferx.FuncPolicy
