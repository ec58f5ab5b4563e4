import Inferx.Lib.Strs
import Inferx.Metastore.Objects
import Inferx.Objects

/-!
# The views of a function

The gateway keeps the pods and the snapshots it has been told of in maps, under the key
`tenant/namespace/name`, and the name of a pod or a snapshot is once more the tenant, the
namespace, its function, the version and something that tells it apart. The pods of a
function are found by a scan from a prefix on. The prefix ends with the name of the
function and not behind it, so the scan sees the functions too whose names only start
with it.
-/

namespace Inferx.GwObjRepo

open Metastore Strs

variable {V S : Type}

/-- `DataObjectMgr::GetObjectsByPrefix`. -/
def getObjectsByPrefix (objs : Objects V) (tenant nameSpace nameprefix : String) :
    List (DataObject V) :=
  let start :=
    if tenant.isEmpty then ""
    else if nameSpace.isEmpty then s!"{tenant}/"
    else s!"{tenant}/{nameSpace}/{nameprefix}"
  ((objs.toList.dropWhile fun p => p.1 < start).takeWhile fun p =>
    start.toList.isPrefixOf p.1.toList).map Prod.snd

/-- `DataObjectMgr::Get`. -/
def get (objs : Objects V) (tenant nameSpace name : String) : Option (DataObject V) :=
  objs[s!"{tenant}/{nameSpace}/{name}"]?

/-- What the views read of a pod. -/
structure FuncPodObject where
  /-- its id -/
  id : String
  /-- the version of its function -/
  version : ℤ
  /-- its state -/
  state : PodState
  deriving DecidableEq

/-- What is known of a function's start-ups. -/
structure FuncStatus where
  snapshotingFailureCnt : ℤ
  state : String
  resumingFailureCnt : ℤ
  deriving DecidableEq

/-- What the views read of a function. -/
structure FunctionObject where
  version : ℤ
  policy : ObjRef
  status : FuncStatus
  deriving DecidableEq

/-- `FuncReadyPod`. -/
structure FuncReadyPod where
  tenant : String
  nameSpace : String
  funcname : String
  fprevision : ℤ
  id : String
  deriving DecidableEq

/-- `FuncDetail`. -/
structure FuncDetail (S : Type) where
  func : DataObject FunctionObject
  snapshots : List S
  sampleRestCall : String
  pods : List (DataObject FuncPodObject)
  isAdmin : Bool
  policy : FuncPolicySpec

/-- The objects that `GwObjRepo` keeps, as far as the views read them. -/
structure Repo (S : Type) where
  funcMgr : Objects FunctionObject := ∅
  funcstatusMgr : Objects FuncStatus := ∅
  funcpolicyMgr : Objects FuncPolicySpec := ∅
  podMgr : Objects FuncPodObject := ∅
  snapshotMgr : Objects S := ∅

/-- The pod as `ListReadyPods` reports it; the name of the function is the pod's name. -/
def readyPod (p : DataObject FuncPodObject) : FuncReadyPod where
  tenant := p.tenant
  nameSpace := p.nameSpace
  funcname := p.name
  fprevision := p.revision
  id := p.object.id

/-- `GwObjRepo::ListReadyPods`. -/
def listReadyPods (repo : Repo S) (tenant nameSpace funcname : String) : List FuncReadyPod :=
  let podPrefix := s!"{tenant}/{nameSpace}/{funcname}"
  ((getObjectsByPrefix repo.podMgr tenant nameSpace podPrefix).filter fun p =>
    p.object.state = .ready).map readyPod

/-- The policy of a function: its own object, else the linked or the given one. -/
def policyOf (repo : Repo S) (tenant nameSpace funcname : String) (ref : ObjRef) : FuncPolicySpec :=
  match get repo.funcpolicyMgr tenant nameSpace funcname with
  | some p => p.object
  | none =>
    match ref with
    | .link l => ((get repo.funcpolicyMgr tenant l.nameSpace l.name).map DataObject.object).getD {}
    | .obj p => p

/-- `GwObjRepo::GetFuncDetail`; `sampleRestCall` writes the sample call of a function. -/
def getFuncDetail (sampleRestCall : DataObject FunctionObject → String) (repo : Repo S)
    (tenant nameSpace funcname : String) : Option (FuncDetail S) := do
  let func ← get repo.funcMgr tenant nameSpace funcname
  let func : DataObject FunctionObject :=
    match get repo.funcstatusMgr func.tenant func.nameSpace func.name with
    | some funcstatus => { func with object := { func.object with status := funcstatus.object } }
    | none => func
  let policy := policyOf repo tenant nameSpace funcname func.object.policy
  let objPrefix := s!"{tenant}/{nameSpace}/{funcname}"
  let snapshots := getObjectsByPrefix repo.snapshotMgr tenant nameSpace objPrefix
  let pods := getObjectsByPrefix repo.podMgr tenant nameSpace objPrefix
  return {
    func
    snapshots := snapshots.map DataObject.object
    sampleRestCall := sampleRestCall func
    pods := pods.filter fun p => p.object.version = func.object.version
    isAdmin := false
    policy }

/-! ## Names -/

/-- An object whose name says which function it belongs to. -/
structure BelongsTo (o : DataObject V) (func : String) : Prop where
  tenant : '/' ∉ o.tenant.toList
  nameSpace : '/' ∉ o.nameSpace.toList
  funcname : '/' ∉ func.toList
  /-- the name goes on with a version and more -/
  name : ∃ version rest : String, '/' ∉ version.toList ∧
    o.name = s!"{o.tenant}/{o.nameSpace}/{func}/{version}/{rest}"

/-- The function that a name tells: its third part. -/
def funcOf (o : DataObject V) : Option String := (splitOnChar '/' o.name)[2]?

/-- Objects with such names, each under its key. -/
def Filed (objs : Objects V) : Prop :=
  ∀ (k : String) (o : DataObject V), objs[k]? = some o → o.key = k ∧
  ∃ funcname, BelongsTo o funcname

/-- An object of exactly this function. -/
def isOf (tenant nameSpace funcname : String) (o : DataObject V) : Bool :=
  o.tenant = tenant && o.nameSpace = nameSpace && funcOf o = some funcname

/-- The objects of exactly this function, in the order of their keys. -/
def objectsOf (objs : Objects V) (tenant nameSpace funcname : String) : List (DataObject V) :=
  (objs.toList.map Prod.snd).filter (isOf tenant nameSpace funcname)

/-- An object that the scan sees: in the namespace a name that starts with the function's is enough. -/
def Covered (tenant nameSpace funcname : String) (o : DataObject V) : Prop :=
  tenant = "" ∨ o.tenant = tenant ∧ (nameSpace = "" ∨ o.nameSpace = nameSpace ∧
    ∃ f, funcOf o = some f ∧ funcname.toList <+: f.toList)

/-- No object that the scan sees and that passes a test is of another function. -/
def NoOther (objs : Objects V) (tenant nameSpace funcname : String)
    (test : DataObject V → Bool) : Prop :=
  ∀ (k : String) (o : DataObject V), objs[k]? = some o → Covered tenant nameSpace funcname o →
    test o = true → isOf tenant nameSpace funcname o = true

section Names

variable {o : DataObject V} {objs : Objects V} {tenant nameSpace funcname func : String}

theorem Filed.empty : Filed (∅ : Objects V) := by
  intro k o ho
  rw [Std.ExtTreeMap.getElem?_empty] at ho
  cases ho

theorem Filed.insert (h : Filed objs) (ho : BelongsTo o func) : Filed (objs.insert o.key o) := by
  intro k o' hget
  rw [BTreeMap.get_insert] at hget
  split at hget
  next heq =>
    obtain rfl := Option.some.inj hget
    exact ⟨heq.symm, func, ho⟩
  next => exact h k o' hget

theorem BelongsTo.name_toList (h : BelongsTo o func) : ∃ version rest : List Char, '/' ∉ version ∧
    o.name.toList = o.tenant.toList ++ '/' :: (o.nameSpace.toList ++ '/' ::
      (func.toList ++ '/' :: (version ++ '/' :: rest))) := by
  obtain ⟨version, rest, hversion, hname⟩ := h.name
  refine ⟨version.toList, rest.toList, hversion, ?_⟩
  rw [hname]
  simp only [String.toList_append, List.append_assoc]
  rfl

theorem BelongsTo.funcOf_eq (h : BelongsTo o func) : funcOf o = some func := by
  obtain ⟨version, rest, hversion, hname⟩ := h.name_toList
  unfold funcOf splitOnChar
  rw [hname, List.splitOn_append_cons_self_of_not_mem h.tenant,
    List.splitOn_append_cons_self_of_not_mem h.nameSpace,
    List.splitOn_append_cons_self_of_not_mem h.funcname]
  simp

/-- A prefix that ends with the name of the function. -/
theorem isPrefixOf_key (h : BelongsTo o func) (htenant : '/' ∉ tenant.toList)
    (hnameSpace : '/' ∉ nameSpace.toList) (hfuncname : '/' ∉ funcname.toList) :
    tenant.toList ++ '/' :: (nameSpace.toList ++ '/' :: (tenant.toList ++ '/' ::
        (nameSpace.toList ++ '/' :: funcname.toList))) <+: o.key.toList ↔
      o.tenant = tenant ∧ o.nameSpace = nameSpace ∧ funcname.toList <+: func.toList := by
  obtain ⟨version, rest, hversion, hname⟩ := h.name_toList
  have hkey : o.key.toList = o.tenant.toList ++ '/' :: (o.nameSpace.toList ++ '/' ::
      (o.tenant.toList ++ '/' :: (o.nameSpace.toList ++ '/' ::
        (func.toList ++ '/' :: (version ++ '/' :: rest))))) := by
    rw [← hname]
    exact o.key_toList
  rw [hkey]
  constructor
  · intro hprefix
    obtain ⟨ht, hprefix⟩ := List.part_of_prefix htenant h.tenant hprefix
    obtain ⟨hn, hprefix⟩ := List.part_of_prefix hnameSpace h.nameSpace hprefix
    obtain ⟨-, hprefix⟩ := List.part_of_prefix htenant h.tenant hprefix
    obtain ⟨-, hprefix⟩ := List.part_of_prefix hnameSpace h.nameSpace hprefix
    -- the name of the function ends before the separator that follows the other one
    exact ⟨String.toList_inj.mp ht.symm, String.toList_inj.mp hn.symm,
      (List.prefix_part_iff hfuncname).mp hprefix⟩
  · rintro ⟨rfl, rfl, t, ht⟩
    refine ⟨t ++ '/' :: (version ++ '/' :: rest), ?_⟩
    rw [← ht]
    simp

theorem ordered_toList (objs : Objects V) : objs.toList.Pairwise fun p q => p.1 < q.1 :=
  Std.ExtTreeMap.ordered_keys_toList.imp fun h => compare_lt_iff_lt.mp h

/-- The prefix that a scan starts from. -/
def scanStart (tenant nameSpace funcname : String) : String :=
  if tenant.isEmpty then ""
  else if nameSpace.isEmpty then s!"{tenant}/"
  else s!"{tenant}/{nameSpace}/{tenant}/{nameSpace}/{funcname}"

theorem getObjectsByPrefix_eq (objs : Objects V) (tenant nameSpace funcname : String) :
    getObjectsByPrefix objs tenant nameSpace s!"{tenant}/{nameSpace}/{funcname}" =
      (objs.toList.filter fun p =>
        (scanStart tenant nameSpace funcname).toList.isPrefixOf p.1.toList).map Prod.snd := by
  have htext : ∀ s : String, toString s = s := fun _ => rfl
  have hstart : ∀ objPrefix : String, objPrefix = s!"{tenant}/{nameSpace}/{funcname}" →
      (if tenant.isEmpty then ""
        else if nameSpace.isEmpty then s!"{tenant}/"
        else s!"{tenant}/{nameSpace}/{objPrefix}") = scanStart tenant nameSpace funcname := by
    rintro _ rfl
    unfold scanStart
    congr 2
    simp only [htext, String.append_assoc]
  unfold getObjectsByPrefix
  dsimp only
  rw [hstart _ rfl, range_eq_filter (ordered_toList objs)]

/-- The scan sees what is covered. -/
theorem scanStart_prefix_iff (h : BelongsTo o func) (htenant : '/' ∉ tenant.toList)
    (hnameSpace : '/' ∉ nameSpace.toList) (hfuncname : '/' ∉ funcname.toList) :
    (scanStart tenant nameSpace funcname).toList <+: o.key.toList ↔
      Covered tenant nameSpace funcname o := by
  have hcovered : (∃ f, funcOf o = some f ∧ funcname.toList <+: f.toList) ↔
      funcname.toList <+: func.toList := by
    rw [h.funcOf_eq]
    exact ⟨fun ⟨f, hf, hprefix⟩ => Option.some.inj hf ▸ hprefix,
      fun hprefix => ⟨func, rfl, hprefix⟩⟩
  unfold scanStart Covered
  rw [hcovered]
  by_cases ht : tenant = ""
  · have hempty : tenant.isEmpty = true := by simpa using ht
    rw [hempty, if_pos rfl]
    exact iff_of_true List.nil_prefix (Or.inl ht)
  · have hsome : tenant.isEmpty = false := by simpa using ht
    rw [hsome, if_neg Bool.false_ne_true, or_iff_right ht]
    by_cases hn : nameSpace = ""
    · have hstart : (if nameSpace.isEmpty = true then s!"{tenant}/"
          else s!"{tenant}/{nameSpace}/{tenant}/{nameSpace}/{funcname}").toList =
            tenant.toList ++ ['/'] := by
        rw [if_pos (by simpa using hn), String.toList_append]
        rfl
      rw [hstart, o.key_toList]
      constructor
      · intro hprefix
        exact ⟨String.toList_inj.mp
          (List.part_of_prefix htenant h.tenant hprefix).1.symm, Or.inl hn⟩
      · rintro ⟨rfl, -⟩
        exact ⟨o.nameSpace.toList ++ '/' :: o.name.toList, by simp⟩
    · have hsome : nameSpace.isEmpty = false := by simpa using hn
      rw [hsome, if_neg Bool.false_ne_true, or_iff_right hn,
        ← isPrefixOf_key h htenant hnameSpace hfuncname]
      refine iff_of_eq (congrArg (· <+: _) ?_)
      simp only [String.toList_append, List.append_assoc]
      rfl

theorem isOf_iff (h : BelongsTo o func) : isOf tenant nameSpace funcname o = true ↔
    o.tenant = tenant ∧ o.nameSpace = nameSpace ∧ func = funcname := by
  unfold isOf
  rw [h.funcOf_eq]
  simp [and_assoc]

theorem Covered.of_isOf (h : BelongsTo o func) (hof : isOf tenant nameSpace funcname o = true) :
    Covered tenant nameSpace funcname o := by
  obtain ⟨ht, hn, rfl⟩ := (isOf_iff h).mp hof
  exact Or.inr ⟨ht, Or.inr ⟨hn, func, h.funcOf_eq, List.prefix_rfl⟩⟩

/-- Two filters of which one is stricter agree exactly if nothing passes only the other one. -/
theorem map_filter_eq_iff {α β : Type} {l : List α} {P Q : α → Bool} {f : α → β}
    (h : ∀ a ∈ l, Q a = true → P a = true) :
    (l.filter P).map f = (l.filter Q).map f ↔ ∀ a ∈ l, P a = true → Q a = true := by
  constructor
  · intro heq a ha hP
    have hfilter : (l.filter P).filter Q = l.filter Q := by
      rw [List.filter_filter]
      refine List.filter_congr fun b hb => ?_
      rcases hQ : Q b
      · rfl
      · rw [h b hb hQ]
        rfl
    have hsub : List.Sublist (l.filter Q) (l.filter P) := hfilter ▸ List.filter_sublist
    have hsame := hsub.eq_of_length (by simpa using congrArg List.length heq.symm)
    exact (List.mem_filter.mp (hsame ▸ List.mem_filter.mpr ⟨ha, hP⟩)).2
  · intro hall
    refine congrArg (List.map f) (List.filter_congr fun a ha => ?_)
    rw [Bool.eq_iff_iff]
    exact ⟨hall a ha, h a ha⟩

variable (hfiled : Filed objs) (htenant : '/' ∉ tenant.toList) (hnameSpace : '/' ∉ nameSpace.toList)
  (hfuncname : '/' ∉ funcname.toList)

include hfiled htenant hnameSpace hfuncname

/-- **The scan.** It finds the objects of the function that pass a test exactly if all that it
sees and that pass are of the function. -/
theorem scan_iff {W : Type} (test : DataObject V → Bool) (f : DataObject V → W) :
    ((getObjectsByPrefix objs tenant nameSpace s!"{tenant}/{nameSpace}/{funcname}").filter test).map f =
        ((objectsOf objs tenant nameSpace funcname).filter test).map f ↔
      NoOther objs tenant nameSpace funcname test := by
  have hof : objectsOf objs tenant nameSpace funcname =
      (objs.toList.filter fun p => isOf tenant nameSpace funcname p.2).map Prod.snd := by
    unfold objectsOf
    rw [List.filter_map]
    rfl
  rw [getObjectsByPrefix_eq, hof, List.filter_map, List.filter_map, List.map_map, List.map_map,
    List.filter_filter, List.filter_filter, map_filter_eq_iff]
  · constructor
    · intro h k o ho hcovered htest
      obtain ⟨hkey, func, hbelongs⟩ := hfiled k o ho
      have hall := h (k, o) (BTreeMap.mem_toList.mpr ho)
      rw [Bool.and_eq_true, Bool.and_eq_true, List.isPrefixOf_iff_prefix] at hall
      refine (hall ⟨htest, ?_⟩).2
      dsimp only
      rw [← hkey]
      exact (scanStart_prefix_iff hbelongs htenant hnameSpace hfuncname).mpr hcovered
    · rintro h ⟨k, o⟩ hp hpass
      have ho := BTreeMap.mem_toList.mp hp
      obtain ⟨rfl, func, hbelongs⟩ := hfiled k o ho
      rw [Bool.and_eq_true, List.isPrefixOf_iff_prefix] at hpass
      rw [Bool.and_eq_true]
      refine ⟨hpass.1, h _ o ho ?_ hpass.1⟩
      exact (scanStart_prefix_iff hbelongs htenant hnameSpace hfuncname).mp hpass.2
  · rintro ⟨k, o⟩ hp hpass
    obtain ⟨rfl, func, hbelongs⟩ := hfiled k o (BTreeMap.mem_toList.mp hp)
    rw [Bool.and_eq_true] at hpass
    rw [Bool.and_eq_true, List.isPrefixOf_iff_prefix]
    exact ⟨hpass.1, (scanStart_prefix_iff hbelongs htenant hnameSpace hfuncname).mpr
      (.of_isOf hbelongs hpass.2)⟩

theorem filter_scan_iff (test : DataObject V → Bool) :
    (getObjectsByPrefix objs tenant nameSpace s!"{tenant}/{nameSpace}/{funcname}").filter test =
        (objectsOf objs tenant nameSpace funcname).filter test ↔
      NoOther objs tenant nameSpace funcname test := by
  have h := scan_iff hfiled htenant hnameSpace hfuncname test id
  rw [List.map_id, List.map_id] at h
  exact h

theorem map_scan_iff {W : Type} (f : DataObject V → W) :
    (getObjectsByPrefix objs tenant nameSpace s!"{tenant}/{nameSpace}/{funcname}").map f =
        (objectsOf objs tenant nameSpace funcname).map f ↔
      NoOther objs tenant nameSpace funcname fun _ => true := by
  have h := scan_iff hfiled htenant hnameSpace hfuncname (fun _ => true) f
  rw [List.filter_true, List.filter_true] at h
  exact h

end Names

/-! ## The views -/

section Views

variable {tenant nameSpace funcname : String}

/-- **The views.** The ready pods, the pods of the current version and the snapshots that are
reported are those of the function, exactly if none of these is of a function whose name only
starts with it. -/
theorem views_iff (sampleRestCall : DataObject FunctionObject → String) (repo : Repo S)
    (hpods : Filed repo.podMgr)
    (hsnapshots : Filed repo.snapshotMgr) (htenant : '/' ∉ tenant.toList)
    (hnameSpace : '/' ∉ nameSpace.toList) (hfuncname : '/' ∉ funcname.toList) :
    (listReadyPods repo tenant nameSpace funcname =
        ((objectsOf repo.podMgr tenant nameSpace funcname).filter
          fun p => p.object.state = .ready).map readyPod ↔
      NoOther repo.podMgr tenant nameSpace funcname fun p => p.object.state = .ready) ∧
    ∀ d, getFuncDetail sampleRestCall repo tenant nameSpace funcname = some d →
      (d.pods = (objectsOf repo.podMgr tenant nameSpace funcname).filter
          (fun p => p.object.version = d.func.object.version) ↔
        NoOther repo.podMgr tenant nameSpace funcname
          fun p => p.object.version = d.func.object.version) ∧
      (d.snapshots = (objectsOf repo.snapshotMgr tenant nameSpace funcname).map DataObject.object ↔
        NoOther repo.snapshotMgr tenant nameSpace funcname fun _ => true) := by
  refine ⟨scan_iff hpods htenant hnameSpace hfuncname _ _, fun d hd => ?_⟩
  obtain ⟨func, -, hd⟩ := Option.bind_eq_some_iff.mp hd
  obtain rfl := Option.some.inj hd
  exact ⟨filter_scan_iff hpods htenant hnameSpace hfuncname _,
    map_scan_iff hsnapshots htenant hnameSpace hfuncname _⟩

/-- Two functions of one namespace whose names have nothing in common. -/
theorem views_two :
    let pod : String → String → DataObject FuncPodObject := fun func id =>
      { objType := "pod", tenant := "acme", nameSpace := "prod",
        name := s!"acme/prod/{func}/1/{id}", object := ⟨id, 1, .ready⟩ }
    let repo : Repo Unit := { podMgr := ((∅ : Objects FuncPodObject).insert (pod "llama" "p").key
      (pod "llama" "p")).insert (pod "qwen" "q").key (pod "qwen" "q") }
    listReadyPods repo "acme" "prod" "llama" =
        ((objectsOf repo.podMgr "acme" "prod" "llama").filter
          fun p => p.object.state = .ready).map readyPod := by
  intro pod repo
  have hllama : BelongsTo (pod "llama" "p") "llama" :=
    ⟨by decide, by decide, by decide, "1", "p", by decide, rfl⟩
  have hqwen : BelongsTo (pod "qwen" "q") "qwen" :=
    ⟨by decide, by decide, by decide, "1", "q", by decide, rfl⟩
  refine (views_iff (fun _ => "") repo ((Filed.empty.insert hllama).insert hqwen) Filed.empty
    (by decide) (by decide) (by decide)).1.mpr fun k o ho hcovered _ => ?_
  rw [BTreeMap.get_insert, BTreeMap.get_insert, Std.ExtTreeMap.getElem?_empty] at ho
  split at ho
  next =>
    obtain rfl := Option.some.inj ho
    rcases hcovered with h | ⟨-, h | ⟨-, f, hf, hprefix⟩⟩
    · exact absurd h (by decide)
    · exact absurd h (by decide)
    · obtain rfl : f = "qwen" := Option.some.inj (hf.symm.trans (by decide +kernel))
      exact absurd hprefix (by decide +kernel)
  next =>
    split at ho
    next =>
      obtain rfl := Option.some.inj ho
      decide +kernel
    next => cases ho

/-- **Another function's pod.** The only ready pod of the namespace is one of `llama2`, and it is
reported for `llama`, as are its snapshot and, at the same version, the pod in the details. -/
theorem views_of_other :
    let pod : DataObject FuncPodObject :=
      { objType := "pod", tenant := "acme", nameSpace := "prod", name := "acme/prod/llama2/1/p",
        object := ⟨"p", 1, .ready⟩ }
    let snapshot : DataObject String :=
      { objType := "snapshot", tenant := "acme", nameSpace := "prod",
        name := "acme/prod/llama2/1/n",
        object := "acme/prod/llama2/1" }
    let func : DataObject FunctionObject :=
      { objType := "function", tenant := "acme", nameSpace := "prod", name := "llama",
        object := ⟨1, .obj {}, ⟨0, "Normal", 0⟩⟩ }
    let repo : Repo String := {
      funcMgr := (∅ : Objects FunctionObject).insert func.key func
      podMgr := (∅ : Objects FuncPodObject).insert pod.key pod
      snapshotMgr := (∅ : Objects String).insert snapshot.key snapshot }
    Filed repo.podMgr ∧ Filed repo.snapshotMgr ∧
      listReadyPods repo "acme" "prod" "llama" = [readyPod pod] ∧
      objectsOf repo.podMgr "acme" "prod" "llama" = [] ∧
      objectsOf repo.snapshotMgr "acme" "prod" "llama" = [] ∧
      (getFuncDetail (fun _ => "") repo "acme" "prod" "llama").map
      (fun d => (d.pods, d.snapshots)) =
        some ([pod], ["acme/prod/llama2/1"]) := by
  intro pod snapshot func repo
  have hpod : BelongsTo pod "llama2" := ⟨by decide, by decide, by decide, "1", "p", by decide, rfl⟩
  have hsnapshot : BelongsTo snapshot "llama2" :=
    ⟨by decide, by decide, by decide, "1", "n", by decide, rfl⟩
  refine ⟨Filed.empty.insert hpod, Filed.empty.insert hsnapshot, ?_, ?_, ?_, ?_⟩
  · decide +kernel
  · decide +kernel
  · decide +kernel
  · decide +kernel

end Views

end Inferx.GwObjRepo
