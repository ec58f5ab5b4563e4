import Inferx.Lib.Strs
import Inferx.Scheduler.Resume
import Inferx.Scheduler.ResumeResource

/-!
# The function a resume is about

A resume looks its function up with a scan that starts at the key it was given and goes
on while the keys start with it. The functions it sees are those whose keys start with
the given one, and it takes the function only if it is alone: the key of version 1 also
starts the keys of the versions 10 to 19.
-/

namespace Inferx

open Strs

namespace SchedulerHandler

variable {s : SchedulerHandler} {fpKey : String}

theorem ordered_funcs (s : SchedulerHandler) : s.funcs.keys.Pairwise (· < ·) :=
  Std.ExtTreeMap.ordered_keys.imp fun h => compare_lt_iff_lt.mp h

/-- The scan sees the functions whose keys start with the given one. -/
theorem funcKeysFrom_eq (s : SchedulerHandler) (fpKey : String) : s.funcKeysFrom fpKey
    = s.funcs.keys.filter fun key => fpKey.toList.isPrefixOf key.toList :=
  range_eq_filter (ordered_funcs s)

theorem mem_funcKeysFrom {key : String} :
    key ∈ s.funcKeysFrom fpKey ↔ key ∈ s.funcs.keys ∧ fpKey.toList <+: key.toList := by
  rw [funcKeysFrom_eq, List.mem_filter, List.isPrefixOf_iff_prefix]

/-- No other function's key starts with this one. -/
def AloneAt (s : SchedulerHandler) (fpKey : String) : Prop :=
  ∀ key ∈ s.funcs.keys, fpKey.toList <+: key.toList → key = fpKey

/-- The scan sees the function alone. -/
theorem funcKeysFrom_alone (hmem : fpKey ∈ s.funcs.keys) (h : s.AloneAt fpKey) :
    s.funcKeysFrom fpKey = [fpKey] := by
  have hnodup : (s.funcKeysFrom fpKey).Nodup := by
    rw [funcKeysFrom_eq]
    exact ((ordered_funcs s).imp ne_of_lt).filter _
  refine List.perm_singleton.mp ((List.perm_ext_iff_of_nodup hnodup
    (List.nodup_singleton _)).mpr ?_)
  intro key
  rw [mem_funcKeysFrom, List.mem_singleton]
  constructor
  · rintro ⟨hkey, hstarts⟩
    exact h key hkey hstarts
  · rintro rfl
    exact ⟨hmem, List.prefix_refl _⟩

/-- The scan sees another function too. -/
theorem funcKeysFrom_crowded (hmem : fpKey ∈ s.funcs.keys) (h : ¬ s.AloneAt fpKey) :
    ∃ a b l, s.funcKeysFrom fpKey = a :: b :: l := by
  have hself : fpKey ∈ s.funcKeysFrom fpKey := mem_funcKeysFrom.mpr ⟨hmem, List.prefix_refl _⟩
  rcases hkeys : s.funcKeysFrom fpKey with _ | ⟨a, _ | ⟨b, l⟩⟩
  · rw [hkeys] at hself
    cases hself
  · refine absurd (fun key hkey hstarts => ?_) h
    have hseen : key ∈ s.funcKeysFrom fpKey := mem_funcKeysFrom.mpr ⟨hkey, hstarts⟩
    rw [hkeys, List.mem_singleton] at hself hseen
    rw [hseen, hself]
  · exact ⟨a, b, l, rfl⟩

theorem resolveFunc_alone {fs : FuncStatus} (hkeys : s.funcKeysFrom fpKey = [fpKey])
    (hfs : s.funcs[fpKey]? = some fs) : resolveFunc fpKey s = .ok fs.func s := by
  simp only [resolveFunc, bind, Proc.bind, Proc.get, hkeys, hfs]
  rfl

theorem resolveFunc_crowded {a b : String} {l : List String}
    (hkeys : s.funcKeysFrom fpKey = a :: b :: l) : resolveFunc fpKey s
      = .err (.commonError s!"CreateWorker get multiple func for {fpKey}") s := by
  simp only [resolveFunc, bind, Proc.bind, Proc.get, hkeys]
  rfl

/-- A resume that finds several functions does nothing. -/
theorem resumePod_crowded {env : Env} {ct : Option String} {a b : String} {l : List String}
    (hkeys : s.funcKeysFrom fpKey = a :: b :: l) : resumePod env fpKey ct s
      = .err (.commonError s!"CreateWorker get multiple func for {fpKey}") s := by
  simp only [resumePod, bind, Proc.bind, resolveFunc_crowded hkeys]

/-- The resume is about the function that is stored under the key it was given. -/
def ResolvesTo (s : SchedulerHandler) (fpKey : String) : Prop :=
  ∃ fs, s.funcs[fpKey]? = some fs ∧ resolveFunc fpKey s = .ok fs.func s

/-- **A resume finds its function** exactly if no other function's key starts with its key. -/
theorem resolvesTo_iff (hmem : fpKey ∈ s.funcs.keys) : s.ResolvesTo fpKey ↔ s.AloneAt fpKey := by
  constructor
  · rintro ⟨fs, -, hresolve⟩
    refine Classical.byContradiction fun hnot => ?_
    obtain ⟨a, b, l, hkeys⟩ := funcKeysFrom_crowded hmem hnot
    rw [resolveFunc_crowded hkeys] at hresolve
    cases hresolve
  · intro h
    have hin : fpKey ∈ s.funcs := Std.ExtTreeMap.mem_keys.mp hmem
    have hfs : s.funcs[fpKey]? = some s.funcs[fpKey] := Std.ExtTreeMap.getElem?_eq_some_getElem hin
    exact ⟨_, hfs, resolveFunc_alone (funcKeysFrom_alone hmem h) hfs⟩

/-- A scheduler with version 1 of a function, and another version of it under the key `other`. -/
def twoVersions (other : String) (version : ℤ) : SchedulerHandler where
  funcs := ((∅ : BTreeMap String FuncStatus).insert "acme/prod/llama/1"
    { func := sizedFunc 1024 0 }).insert other { func := { sizedFunc 1024 0 with version } }

theorem mem_twoVersions {other key : String} {version : ℤ} :
    key ∈ (twoVersions other version).funcs.keys ↔ key = other ∨ key = "acme/prod/llama/1" := by
  unfold twoVersions
  rw [Std.ExtTreeMap.mem_keys, Std.ExtTreeMap.mem_insert, Std.ExtTreeMap.mem_insert,
    compare_eq_iff_eq, compare_eq_iff_eq, eq_comm (a := other), eq_comm (a := "acme/prod/llama/1")]
  simp

theorem resolvesTo_two : (twoVersions "acme/prod/llama/2" 2).ResolvesTo "acme/prod/llama/1" :=
  (resolvesTo_iff (mem_twoVersions.mpr (.inr rfl))).mpr fun key hkey hstarts => by
    rcases mem_twoVersions.mp hkey with rfl | rfl
    · exact absurd hstarts (by decide)
    · rfl

/-- Version 12 is found with version 1. -/
theorem resumePod_twelve : "acme/prod/llama/1" ∈ (twoVersions "acme/prod/llama/12" 12).funcs.keys ∧
    ¬ (twoVersions "acme/prod/llama/12" 12).ResolvesTo "acme/prod/llama/1" ∧
    ∀ env ct, ∃ e, resumePod env "acme/prod/llama/1" ct (twoVersions "acme/prod/llama/12" 12)
      = .err e (twoVersions "acme/prod/llama/12" 12) := by
  have hmem : "acme/prod/llama/1" ∈ (twoVersions "acme/prod/llama/12" 12).funcs.keys :=
    mem_twoVersions.mpr (.inr rfl)
  have hcrowded : ¬ (twoVersions "acme/prod/llama/12" 12).AloneAt "acme/prod/llama/1" := fun h =>
    absurd (h "acme/prod/llama/12" (mem_twoVersions.mpr (.inl rfl)) (by decide)) (by decide)
  obtain ⟨a, b, l, hkeys⟩ := funcKeysFrom_crowded hmem hcrowded
  refine ⟨hmem, ?_, fun env ct => ⟨_, resumePod_crowded hkeys⟩⟩
  rintro ⟨fs, -, hresolve⟩
  rw [resolveFunc_crowded hkeys] at hresolve
  cases hresolve

end SchedulerHandler

end Inferx
