import Mathlib.Logic.Function.Basic
import Mathlib.Tactic.Common
import Inferx.Lib.Runs

/-!
# Knowledge bases

The file of a knowledge base is uploaded to a stage, and moved from there to a
directory of its own when a version of the function is made. `CreateFunc` and
`UpdateFunc` move the file first (an update without a staged file copies the one of the
old version), then write the function to the state service, and move the file back if
that fails. All is about the requests for one function, each file operation and each
call to the state service a step.

A call may fail before it has stored the function, or after; then the file goes back
although the function is there.
-/

namespace Inferx.Gateway.KnowledgeBase

/-- The next step of a request. `create` tells `CreateFunc` from `UpdateFunc`. -/
inductive KbCall (F : Type) where
  /-- `UpdateFunc` reads the function that is there -/
  | get
  /-- `client.Uid`; an update has the old version -/
  | uid (old : Option ℕ)
  /-- `stage_file.exists()` of an update -/
  | stageExists (old id : ℕ)
  /-- `prepare_kb_stage_promotion`: the file is readable -/
  | check (create : Bool) (id : ℕ)
  /-- and moved -/
  | promote (create : Bool) (id : ℕ)
  /-- `prepare_kb_version_copy`: the file of the old version is readable -/
  | copyCheck (old id : ℕ)
  /-- and copied -/
  | copy (old id : ℕ)
  /-- `client.Create` or `client.Update`, with the file that has been moved if it was -/
  | store (create : Bool) (id : ℕ) (moved : Option F)
  /-- `rollback_kb_stage_promotion` -/
  | rollback (id : ℕ) (moved : F)
  /-- `cleanup_kb_version_dir` -/
  | cleanup (id : ℕ)
  deriving DecidableEq

/-- The version that a request makes. -/
def KbCall.version {F : Type} : KbCall F → Option ℕ
  | .get | .uid _ => none
  | .stageExists _ id | .check _ id | .promote _ id | .copyCheck _ id | .copy _ id | .store _ id _
  | .rollback id _ | .cleanup id => some id

/-- Does the step move the staged file? -/
def KbCall.moves {F : Type} : KbCall F → Bool
  | .promote _ _ | .rollback _ _ => true
  | _ => false

/-- The files and the function, with the requests under way. -/
structure KbState (F : Type) where
  /-- the staged file -/
  stage : Option F := none
  /-- the files of the versions -/
  file : ℕ → Option F := fun _ => none
  /-- the versions that have been stored, the one that is there first -/
  stored : List ℕ := []
  /-- the values that `client.Uid` has given -/
  uids : List ℕ := []
  /-- the requests under way -/
  calls : ℕ → Option (KbCall F) := fun _ => none
  /-- the requests that have failed: the file that each had moved, and what is staged then -/
  failed : List (Option F × Option F) := []
  /-- what was staged where a file was moved back to -/
  overwritten : List F := []

/-- What can happen next, mostly to the `n`-th request. -/
inductive KbInput (F : Type) where
  /-- a file is staged -/
  | upload (f : F)
  | createFunc (n : ℕ)
  | updateFunc (n : ℕ)
  /-- the state service answers `Get`, maybe some versions behind -/
  | get (n lag : ℕ)
  | uid (n id : ℕ)
  /-- a file operation -/
  | fileOp (n : ℕ)
  /-- the state service has stored the function or has not, and answers with an error or
  does not -/
  | store (n : ℕ) (stored answers : Bool)
  /-- `Get` or `Uid` fails -/
  | fail (n : ℕ)

variable {F : Type}

namespace KbState

variable (s : KbState F)

/-- A request goes on. -/
def goOn (n : ℕ) (c : KbCall F) : KbState F := { s with calls := Function.update s.calls n (some c) }

/-- A request ends. -/
def done (n : ℕ) : KbState F := { s with calls := Function.update s.calls n none }

/-- A request fails. -/
def failWith (n : ℕ) (moved : Option F) : KbState F :=
  { s.done n with failed := (moved, s.stage) :: s.failed }

/-- A file operation. -/
def fileOp (n : ℕ) : KbCall F → Option (KbState F)
  | .stageExists old id => some (s.goOn n (if s.stage.isSome then .check false id else .copyCheck old id))
  | .check create id => some (if s.stage.isSome then s.goOn n (.promote create id) else s.failWith n none)
  | .promote create id =>
    match s.stage with
    | some f => some ({ s with stage := none, file := Function.update s.file id (some f) }.goOn n
        (.store create id (some f)))
    | none => some (s.failWith n none)
  | .copyCheck old id => some (if (s.file old).isSome then s.goOn n (.copy old id) else s.failWith n none)
  | .copy old id =>
    match s.file old with
    | some f => some ({ s with file := Function.update s.file id (some f) }.goOn n (.store false id none))
    | none => some (s.failWith n none)
  | .rollback id moved =>
    match s.file id with
    | some f => some ({ s with stage := some f
                               file := Function.update s.file id none
                               overwritten := s.stage.toList ++ s.overwritten }.failWith n (some moved))
    | none => some (s.failWith n (some moved))
  | .cleanup id => some ({ s with file := Function.update s.file id none }.failWith n none)
  | _ => none

/-- The function is created only if there is none, and updated only if there is one. -/
def storable (create : Bool) : Bool := if create then s.stored.isEmpty else !s.stored.isEmpty

/-- The call that stores the function. -/
def storeOp (n : ℕ) (stored answers create : Bool) (id : ℕ) (moved : Option F) : Option (KbState F) :=
  if stored && !s.storable create || answers && !stored then none
  else
    let s' := if stored then { s with stored := id :: s.stored } else s
    some (if answers then s'.done n
      else match moved with
        | some f => s'.goOn n (.rollback id f)
        | none => s'.goOn n (.cleanup id))

def next : KbInput F → Option (KbState F)
  | .upload f => some { s with stage := some f }
  | .createFunc n => if (s.calls n).isNone then some (s.goOn n (.uid none)) else none
  | .updateFunc n => if (s.calls n).isNone then some (s.goOn n .get) else none
  | .get n lag =>
    match s.calls n with
    | some .get =>
      match s.stored[lag]? with
      | some old => some (s.goOn n (.uid (some old)))
      | none => some (s.failWith n none)
    | _ => none
  | .uid n id =>
    if id ∈ s.uids then none
    else
      match s.calls n with
      | some (.uid none) => some ({ s with uids := id :: s.uids }.goOn n (.check true id))
      | some (.uid (some old)) => some ({ s with uids := id :: s.uids }.goOn n (.stageExists old id))
      | _ => none
  | .fileOp n => (s.calls n).bind (s.fileOp n)
  | .store n stored answers =>
    match s.calls n with
    | some (.store create id moved) => s.storeOp n stored answers create id moved
    | _ => none
  | .fail n =>
    match s.calls n with
    | some .get | some (.uid _) => some (s.failWith n none)
    | _ => none

/-- Nothing has been uploaded yet. -/
def Started : Prop := s = {}

/-- **No knowledge base is lost.** -/
structure Kept : Prop where
  /-- the version that is stored has its file when no request is under way -/
  stored : (∀ n, s.calls n = none) → ∀ v, s.stored.head? = some v → (s.file v).isSome = true
  /-- a request that fails puts the file back that it has moved -/
  restored : ∀ e ∈ s.failed, ∀ f, e.1 = some f → e.2 = some f
  /-- over none that has been staged meanwhile -/
  staged : s.overwritten = []

/-- **What a step leaves alone**: the files of the versions that other requests make or have
made, and the staged file unless it is moved or uploaded. -/
structure Frame (i : KbInput F) (s' : KbState F) : Prop where
  file : ∀ v, s'.file v ≠ s.file v → ∃ n c, i = .fileOp n ∧ s.calls n = some c ∧ c.version = some v
  stage : s'.stage ≠ s.stage → (∃ f, i = .upload f) ∨ ∃ n c, i = .fileOp n ∧ s.calls n = some c ∧ c.moves = true

/-- The steps that do not go wrong: a call that has stored the function answers without an
error; and a file is moved back only while nothing is staged. -/
def Orderly : KbInput F → Prop
  | .store _ stored answers => stored = true → answers = true
  | .fileOp n => ∀ id f, s.calls n = some (.rollback id f) → s.stage = none
  | _ => True

variable {s} {s' : KbState F} {n : ℕ} {c : KbCall F}

/-! ## The invariant -/

/-- What the file of a request's version is by then. -/
def FileOk (file : ℕ → Option F) : KbCall F → Prop
  | .store _ id moved => (file id).isSome = true ∧ ∀ f, moved = some f → file id = some f
  | .rollback id f => file id = some f
  | _ => True

/-- What holds in every state. -/
structure Inv (s : KbState F) : Prop where
  /-- a version that is being made has not been stored -/
  version : ∀ n c id, s.calls n = some c → c.version = some id → id ∈ s.uids ∧ id ∉ s.stored
  file : ∀ n c, s.calls n = some c → FileOk s.file c
  /-- no two requests make the same version -/
  ids : ∀ m n c d id, s.calls m = some c → s.calls n = some d → c.version = some id → d.version = some id → m = n
  /-- each version that has been stored keeps its file -/
  stored : ∀ v ∈ s.stored, v ∈ s.uids ∧ (s.file v).isSome = true
  restored : ∀ e ∈ s.failed, ∀ f, e.1 = some f → e.2 = some f
  staged : s.overwritten = []

theorem Inv.started (h : s.Started) : Inv s := by
  obtain rfl := h
  refine ⟨?_, ?_, ?_, ?_, ?_, rfl⟩
  · simp
  · simp
  · simp
  · simp
  · simp

theorem fileOk_congr {file file' : ℕ → Option F} (h : FileOk file c)
    (hfile : ∀ id, c.version = some id → file' id = file id) : FileOk file' c := by
  cases c with
  | store create id moved =>
    have hid := hfile id rfl
    simp only [FileOk] at h ⊢
    rw [hid]
    exact h
  | rollback id f => exact (hfile id rfl).trans h
  | get | uid | stageExists | check | promote | copyCheck | copy | cleanup => trivial

/-- **The rule for a step** of the `n`-th request, which then is at `o`: the files of the
other requests are as they were, and so are the versions that are stored. -/
theorem Inv.replace (h : Inv s) {o : Option (KbCall F)} (hcalls : s'.calls = Function.update s.calls n o)
    (hfile : ∀ m d id, m ≠ n → s.calls m = some d → d.version = some id → s'.file id = s.file id)
    (huids : ∀ v ∈ s.uids, v ∈ s'.uids)
    (hnew : ∀ m d id, m ≠ n → s.calls m = some d → d.version = some id → id ∉ s'.stored)
    (hown : ∀ c, o = some c → FileOk s'.file c)
    (hversion : ∀ c id, o = some c → c.version = some id → (id ∈ s'.uids ∧ id ∉ s'.stored) ∧
      ∀ m d, m ≠ n → s.calls m = some d → d.version ≠ some id)
    (hstored : ∀ v ∈ s'.stored, v ∈ s'.uids ∧ (s'.file v).isSome = true)
    (hrestored : ∀ e ∈ s'.failed, ∀ f, e.1 = some f → e.2 = some f) (hstaged : s'.overwritten = []) : Inv s' := by
  have hget : ∀ m d, s'.calls m = some d → (m = n ∧ o = some d) ∨ (m ≠ n ∧ s.calls m = some d) := by
    intro m d hd
    rw [hcalls, Function.update_apply] at hd
    split at hd
    next hm => exact .inl ⟨hm, hd⟩
    next hm => exact .inr ⟨hm, hd⟩
  refine ⟨fun m d id hd hid => ?_, fun m d hd => ?_, fun m k d e id hd he hdid heid => ?_, hstored, hrestored, hstaged⟩
  · rcases hget m d hd with ⟨-, ho⟩ | ⟨hm, hd⟩
    · exact (hversion d id ho hid).1
    · exact ⟨huids id (h.version m d id hd hid).1, hnew m d id hm hd hid⟩
  · rcases hget m d hd with ⟨-, ho⟩ | ⟨hm, hd⟩
    · exact hown d ho
    · exact fileOk_congr (h.file m d hd) fun id hid => hfile m d id hm hd hid
  · rcases hget m d hd with ⟨rfl, ho⟩ | ⟨hm, hd⟩
    · rcases hget k e he with ⟨rfl, -⟩ | ⟨hk, he⟩
      · rfl
      · exact absurd heid ((hversion d id ho hdid).2 k e hk he)
    · rcases hget k e he with ⟨rfl, ho⟩ | ⟨hk, he⟩
      · exact absurd hdid ((hversion e id ho heid).2 m d hm hd)
      · exact h.ids m k d e id hd he hdid heid

/-- A request goes on with its version, or ends, and nothing else happens. -/
theorem Inv.proceed (h : Inv s) (hc : s.calls n = some c) {o : Option (KbCall F)}
    (hcalls : s'.calls = Function.update s.calls n o) (hfile : s'.file = s.file) (huids : s'.uids = s.uids)
    (hstored : s'.stored = s.stored) (hown : ∀ d, o = some d → FileOk s.file d)
    (hversion : ∀ d id, o = some d → d.version = some id → c.version = some id)
    (hrestored : ∀ e ∈ s'.failed, ∀ f, e.1 = some f → e.2 = some f) (hstaged : s'.overwritten = []) : Inv s' := by
  refine h.replace hcalls ?_ ?_ ?_ ?_ ?_ ?_ hrestored hstaged
  · exact fun _ _ id _ _ _ => congrFun hfile id
  · rw [huids]
    exact fun _ hv => hv
  · rw [hstored]
    exact fun m d id _ hd hid => (h.version m d id hd hid).2
  · rw [hfile]
    exact hown
  · rw [huids, hstored]
    intro d id ho hid
    have hcid := hversion d id ho hid
    exact ⟨h.version n c id hc hcid, fun m e hm he heid => hm (h.ids m n e c id he hc heid hcid)⟩
  · rw [hstored, huids, hfile]
    exact h.stored

/-- A request goes on with its version. -/
theorem Inv.goOn (h : Inv s) (hc : s.calls n = some c) {d : KbCall F} (hown : FileOk s.file d)
    (hversion : d.version = c.version) : Inv (s.goOn n d) := by
  refine h.proceed hc rfl rfl rfl rfl (fun e ho => ?_) (fun e v ho hv => ?_) h.restored h.staged
  · obtain rfl := Option.some.inj ho
    exact hown
  · obtain rfl := Option.some.inj ho
    exact hversion.symm.trans hv

/-- A request that has moved nothing fails. -/
theorem Inv.failWith (h : Inv s) (hc : s.calls n = some c) : Inv (s.failWith n none) := by
  refine h.proceed hc rfl rfl rfl rfl ?_ ?_ (fun e he f hf => ?_) h.staged
  · exact fun _ ho => (nomatch ho)
  · exact fun _ _ ho => (nomatch ho)
  · rcases List.mem_cons.mp he with rfl | he
    · cases hf
    · exact h.restored e he f hf

/-- The file of a request's version is written or removed. -/
theorem Inv.write (h : Inv s) (hc : s.calls n = some c) {id : ℕ} (hid : c.version = some id) {x : Option F}
    {o : Option (KbCall F)} (hcalls : s'.calls = Function.update s.calls n o)
    (hfile : s'.file = Function.update s.file id x) (huids : s'.uids = s.uids) (hstored : s'.stored = s.stored)
    (hown : ∀ d, o = some d → FileOk s'.file d) (hversion : ∀ d v, o = some d → d.version = some v → v = id)
    (hrestored : ∀ e ∈ s'.failed, ∀ f, e.1 = some f → e.2 = some f) (hstaged : s'.overwritten = []) : Inv s' := by
  have hothers : ∀ m d, m ≠ n → s.calls m = some d → d.version ≠ some id :=
    fun m d hm hd hdid => hm (h.ids m n d c id hd hc hdid hid)
  refine h.replace hcalls ?_ ?_ ?_ hown ?_ ?_ hrestored hstaged
  · intro m d v hm hd hv
    rw [hfile, Function.update_of_ne]
    rintro rfl
    exact hothers m d hm hd hv
  · rw [huids]
    exact fun _ hv => hv
  · rw [hstored]
    exact fun m d v _ hd hv => (h.version m d v hd hv).2
  · rw [huids, hstored]
    intro d v ho hv
    obtain rfl := hversion d v ho hv
    exact ⟨h.version n c v hc hid, hothers⟩
  · rw [hstored, huids, hfile]
    intro v hv
    have hne : v ≠ id := by
      rintro rfl
      exact (h.version n c v hc hid).2 hv
    rw [Function.update_of_ne hne]
    exact h.stored v hv

/-! ## Steps -/

/-- **A file operation.** -/
theorem Inv.fileOp (h : Inv s) (hc : s.calls n = some c) (hempty : ∀ id f, c = .rollback id f → s.stage = none)
    (hop : s.fileOp n c = some s') : Inv s' := by
  cases c with
  | get | uid | store => cases hop
  | stageExists old id =>
    obtain rfl := Option.some.inj hop
    split
    next => exact h.goOn hc trivial rfl
    next => exact h.goOn hc trivial rfl
  | check create id =>
    obtain rfl := Option.some.inj hop
    split
    next => exact h.goOn hc trivial rfl
    next => exact h.failWith hc
  | promote create id =>
    simp only [KbState.fileOp] at hop
    split at hop
    next f _ =>
      obtain rfl := Option.some.inj hop
      refine h.write hc rfl rfl rfl rfl rfl (fun d ho => ?_) (fun d v ho hv => ?_) h.restored h.staged
      · obtain rfl := Option.some.inj ho
        have hfile : Function.update s.file id (some f) id = some f := Function.update_self ..
        exact ⟨Option.isSome_iff_exists.mpr ⟨f, hfile⟩, fun f' hf' => hfile.trans hf'⟩
      · obtain rfl := Option.some.inj ho
        exact (Option.some.inj hv).symm
    next =>
      obtain rfl := Option.some.inj hop
      exact h.failWith hc
  | copyCheck old id =>
    obtain rfl := Option.some.inj hop
    split
    next => exact h.goOn hc trivial rfl
    next => exact h.failWith hc
  | copy old id =>
    simp only [KbState.fileOp] at hop
    split at hop
    next f _ =>
      obtain rfl := Option.some.inj hop
      refine h.write hc rfl rfl rfl rfl rfl (fun d ho => ?_) (fun d v ho hv => ?_) h.restored h.staged
      · obtain rfl := Option.some.inj ho
        have hfile : Function.update s.file id (some f) id = some f := Function.update_self ..
        exact ⟨Option.isSome_iff_exists.mpr ⟨f, hfile⟩, fun f' hf' => (nomatch hf')⟩
      · obtain rfl := Option.some.inj ho
        exact (Option.some.inj hv).symm
    next =>
      obtain rfl := Option.some.inj hop
      exact h.failWith hc
  | rollback id moved =>
    have hfile : s.file id = some moved := h.file n _ hc
    simp only [KbState.fileOp, hfile] at hop
    obtain rfl := Option.some.inj hop
    refine h.write hc rfl rfl rfl rfl rfl (fun _ ho => (nomatch ho)) (fun _ _ ho => (nomatch ho)) (fun e he f hf => ?_) ?_
    · rcases List.mem_cons.mp he with rfl | he
      · exact hf
      · exact h.restored e he f hf
    · simp only [KbState.failWith, done, hempty id moved rfl, Option.toList_none, List.nil_append]
      exact h.staged
  | cleanup id =>
    obtain rfl := Option.some.inj hop
    refine h.write hc rfl rfl rfl rfl rfl (fun _ ho => (nomatch ho)) (fun _ _ ho => (nomatch ho)) (fun e he f hf => ?_) h.staged
    rcases List.mem_cons.mp he with rfl | he
    · cases hf
    · exact h.restored e he f hf

/-- **The function is stored**, or is not and the file goes back. -/
theorem Inv.storeOp (h : Inv s) {stored answers create : Bool} {id : ℕ} {moved : Option F}
    (hc : s.calls n = some (.store create id moved)) (hok : stored = true → answers = true)
    (hop : s.storeOp n stored answers create id moved = some s') : Inv s' := by
  obtain ⟨hsome, hmoved⟩ : (s.file id).isSome = true ∧ ∀ f, moved = some f → s.file id = some f := h.file n _ hc
  unfold KbState.storeOp at hop
  split at hop
  next => cases hop
  next hnot =>
    obtain rfl := Option.some.inj hop
    cases stored with
    | true =>
      rw [hok rfl]
      simp only [if_true]
      -- the version joins those that are stored
      have hothers : ∀ m d, m ≠ n → s.calls m = some d → d.version ≠ some id :=
        fun m d hm hd hdid => hm (h.ids m n d _ id hd hc hdid rfl)
      refine h.replace rfl (fun _ _ _ _ _ _ => rfl) (fun _ hv => hv) (fun m d v hm hd hv hmem => ?_)
        (fun _ ho => (nomatch ho)) (fun _ _ ho => (nomatch ho)) (fun v hv => ?_) h.restored h.staged
      · rcases List.mem_cons.mp hmem with rfl | hmem
        · exact hothers m d hm hd hv
        · exact (h.version m d v hd hv).2 hmem
      · rcases List.mem_cons.mp hv with rfl | hv
        · exact ⟨(h.version n _ v hc rfl).1, hsome⟩
        · exact h.stored v hv
    | false =>
      have hanswers : answers = false := by
        cases answers
        · rfl
        · simp at hnot
      subst hanswers
      simp only [Bool.false_eq_true, if_false]
      cases moved with
      | some f => exact h.goOn hc (hmoved f rfl) rfl
      | none => exact h.goOn hc trivial rfl

/-- A request that has no version yet goes on. -/
theorem Inv.begin (h : Inv s) (hc : c.version = none) : Inv (s.goOn n c) := by
  refine h.replace rfl (fun _ _ _ _ _ _ => rfl) (fun _ hv => hv) (fun m d v _ hd hv => (h.version m d v hd hv).2)
    (fun d ho => ?_) (fun d v ho hv => ?_) h.stored h.restored h.staged
  · obtain rfl := Option.some.inj ho
    cases c with
    | get | uid => trivial
    | stageExists | check | promote | copyCheck | copy | store | rollback | cleanup => cases hc
  · obtain rfl := Option.some.inj ho
    rw [hc] at hv
    cases hv

/-- A request gets a version that is new. -/
theorem Inv.uid (h : Inv s) {id : ℕ} (hid : id ∉ s.uids) (hversion : c.version = some id) (hc : ∀ file, FileOk file c) :
    Inv ({ s with uids := id :: s.uids }.goOn n c) := by
  refine h.replace rfl (fun _ _ _ _ _ _ => rfl) (fun _ hv => List.mem_cons_of_mem _ hv)
    (fun m d v _ hd hv => (h.version m d v hd hv).2) (fun d ho => ?_) (fun d v ho hv => ?_) (fun v hv => ?_)
    h.restored h.staged
  · obtain rfl := Option.some.inj ho
    exact hc _
  · obtain rfl := Option.some.inj ho
    obtain rfl := Option.some.inj (hversion.symm.trans hv)
    refine ⟨⟨List.mem_cons_self, fun hmem => hid (h.stored _ hmem).1⟩, fun m e _ he heid => ?_⟩
    exact hid (h.version m e _ he heid).1
  · obtain ⟨hmem, hfile⟩ := h.stored v hv
    exact ⟨List.mem_cons_of_mem _ hmem, hfile⟩

/-- **One step** keeps the invariant. -/
theorem Inv.next (h : Inv s) {i : KbInput F} (hok : s.Orderly i) (hnext : s.next i = some s') : Inv s' := by
  cases i with
  | upload f =>
    obtain rfl := Option.some.inj hnext
    exact ⟨h.version, h.file, h.ids, h.stored, h.restored, h.staged⟩
  | createFunc n =>
    simp only [KbState.next] at hnext
    split at hnext
    next =>
      obtain rfl := Option.some.inj hnext
      exact h.begin rfl
    next => cases hnext
  | updateFunc n =>
    simp only [KbState.next] at hnext
    split at hnext
    next =>
      obtain rfl := Option.some.inj hnext
      exact h.begin rfl
    next => cases hnext
  | get n lag =>
    simp only [KbState.next] at hnext
    split at hnext
    next hc =>
      split at hnext
      next =>
        obtain rfl := Option.some.inj hnext
        exact h.begin rfl
      next =>
        obtain rfl := Option.some.inj hnext
        exact h.failWith hc
    next => cases hnext
  | uid n id =>
    simp only [KbState.next] at hnext
    split at hnext
    next => cases hnext
    next hid =>
      split at hnext
      next =>
        obtain rfl := Option.some.inj hnext
        exact h.uid hid rfl fun _ => trivial
      next =>
        obtain rfl := Option.some.inj hnext
        exact h.uid hid rfl fun _ => trivial
      next => cases hnext
  | fileOp n =>
    obtain ⟨c, hc, hop⟩ := Option.bind_eq_some_iff.mp hnext
    refine h.fileOp hc (fun id f hroll => hok id f (hroll ▸ hc)) hop
  | store n stored answers =>
    simp only [KbState.next] at hnext
    split at hnext
    next create id moved hc => exact h.storeOp hc hok hnext
    next => cases hnext
  | fail n =>
    simp only [KbState.next] at hnext
    split at hnext
    next hc =>
      obtain rfl := Option.some.inj hnext
      exact h.failWith hc
    next old hc =>
      obtain rfl := Option.some.inj hnext
      exact h.failWith hc
    next => cases hnext

theorem Inv.kept (h : Inv s) : s.Kept where
  stored _ v hv := (h.stored v (List.mem_of_head? hv)).2
  restored := h.restored
  staged := h.staged

/-! ## What a step leaves alone -/

/-- A step that touches no file. -/
theorem frame_of_eq {i : KbInput F} (hfile : s'.file = s.file) (hstage : s'.stage = s.stage) : s.Frame i s' :=
  ⟨fun v hne => absurd (congrFun hfile v) hne, fun hne => absurd hstage hne⟩

/-- A file operation touches the file of the request's own version. -/
theorem frame_fileOp (hc : s.calls n = some c) (hop : s.fileOp n c = some s') : s.Frame (.fileOp n) s' := by
  -- the file of a version is written or removed
  have hupdate : ∀ {id : ℕ} {x : Option F}, c.version = some id → s'.file = Function.update s.file id x →
      ∀ v, s'.file v ≠ s.file v →
        ∃ m d, (KbInput.fileOp n : KbInput F) = .fileOp m ∧ s.calls m = some d ∧ d.version = some v := by
    intro id x hid hfile v hne
    refine ⟨n, c, rfl, hc, ?_⟩
    by_cases hv : v = id
    · rw [hv, hid]
    · rw [hfile, Function.update_of_ne hv] at hne
      exact absurd rfl hne
  cases c with
  | get | uid | store => cases hop
  | stageExists old id =>
    obtain rfl := Option.some.inj hop
    exact frame_of_eq rfl rfl
  | check create id =>
    obtain rfl := Option.some.inj hop
    split <;> exact frame_of_eq rfl rfl
  | promote create id =>
    simp only [fileOp] at hop
    split at hop
    next =>
      obtain rfl := Option.some.inj hop
      exact ⟨hupdate rfl rfl, fun _ => .inr ⟨n, _, rfl, hc, rfl⟩⟩
    next =>
      obtain rfl := Option.some.inj hop
      exact frame_of_eq rfl rfl
  | copyCheck old id =>
    obtain rfl := Option.some.inj hop
    split <;> exact frame_of_eq rfl rfl
  | copy old id =>
    simp only [fileOp] at hop
    split at hop
    next =>
      obtain rfl := Option.some.inj hop
      exact ⟨hupdate rfl rfl, fun hne => absurd rfl hne⟩
    next =>
      obtain rfl := Option.some.inj hop
      exact frame_of_eq rfl rfl
  | rollback id moved =>
    simp only [fileOp] at hop
    split at hop
    next =>
      obtain rfl := Option.some.inj hop
      exact ⟨hupdate rfl rfl, fun _ => .inr ⟨n, _, rfl, hc, rfl⟩⟩
    next =>
      obtain rfl := Option.some.inj hop
      exact frame_of_eq rfl rfl
  | cleanup id =>
    obtain rfl := Option.some.inj hop
    exact ⟨hupdate rfl rfl, fun hne => absurd rfl hne⟩

theorem frame_next {i : KbInput F} (hnext : s.next i = some s') : s.Frame i s' := by
  cases i with
  | upload f =>
    obtain rfl := Option.some.inj hnext
    exact ⟨fun v hne => absurd rfl hne, fun _ => .inl ⟨f, rfl⟩⟩
  | fileOp n =>
    obtain ⟨c, hc, hop⟩ := Option.bind_eq_some_iff.mp hnext
    exact frame_fileOp hc hop
  | createFunc n =>
    simp only [next] at hnext
    split at hnext
    next =>
      obtain rfl := Option.some.inj hnext
      exact frame_of_eq rfl rfl
    next => cases hnext
  | updateFunc n =>
    simp only [next] at hnext
    split at hnext
    next =>
      obtain rfl := Option.some.inj hnext
      exact frame_of_eq rfl rfl
    next => cases hnext
  | get n lag =>
    simp only [next] at hnext
    split at hnext
    next => split at hnext <;> (obtain rfl := Option.some.inj hnext; exact frame_of_eq rfl rfl)
    next => cases hnext
  | uid n id =>
    simp only [next] at hnext
    split at hnext
    next => cases hnext
    next =>
      split at hnext
      next =>
        obtain rfl := Option.some.inj hnext
        exact frame_of_eq rfl rfl
      next =>
        obtain rfl := Option.some.inj hnext
        exact frame_of_eq rfl rfl
      next => cases hnext
  | store n stored answers =>
    simp only [next] at hnext
    split at hnext
    next create id moved hc =>
      unfold storeOp at hnext
      split at hnext
      next => cases hnext
      next =>
        obtain rfl := Option.some.inj hnext
        cases stored <;> cases answers <;> cases moved <;> exact frame_of_eq rfl rfl
    next => cases hnext
  | fail n =>
    simp only [next] at hnext
    split at hnext
    next =>
      obtain rfl := Option.some.inj hnext
      exact frame_of_eq rfl rfl
    next =>
      obtain rfl := Option.some.inj hnext
      exact frame_of_eq rfl rfl
    next => cases hnext

/-- **No knowledge base is lost** in a run of uploads and requests whose calls fail only
before they have stored the function, and that move files back only while nothing is
staged. -/
theorem kept_of_orderly (h : Reach KbState.next Started Orderly s) :
    s.Kept ∧ ∀ i s', s.next i = some s' → s.Frame i s' :=
  ⟨(h.invariant (fun _ => Inv.started) fun _ _ _ hinv hok hnext => hinv.next hok hnext).kept,
    fun _ _ hnext => frame_next hnext⟩

/-! ## Two runs -/

instance [DecidableEq F] (s : KbState F) : ∀ i, Decidable (s.Orderly i)
  | .store _ _ _ => inferInstanceAs (Decidable (_ → _))
  | .fileOp n =>
    match hc : s.calls n with
    | some (.rollback id f) => decidable_of_iff (s.stage = none)
        ⟨fun h _ _ _ => h, fun h => h id f hc⟩
    | none | some .get | some (.uid _) | some (.stageExists _ _) | some (.check _ _) | some (.promote _ _)
    | some (.copyCheck _ _) | some (.copy _ _) | some (.store _ _ _) | some (.cleanup _) =>
      .isTrue fun _ _ h => by rw [hc] at h; cases h
  | .upload _ | .createFunc _ | .updateFunc _ | .get _ _ | .uid _ _ | .fail _ => .isTrue trivial

/-- A file is staged and the function created; the first attempt fails before it is stored. -/
def createdAgain : List (KbInput String) :=
  [.upload "a", .createFunc 0, .uid 0 1, .fileOp 0, .fileOp 0, .store 0 false false, .fileOp 0,
    .createFunc 0, .uid 0 2, .fileOp 0, .fileOp 0, .store 0 true true]

theorem kept_createdAgain : ∃ s : KbState String, s.Kept ∧ s.stored = [2] ∧ s.file 2 = some "a" := by
  have hrun : ((exec KbState.next Orderly {} createdAgain).map fun s => (s.stored, s.file 2)) =
      some ([2], some "a") := by decide +kernel
  obtain ⟨s, hs, heq⟩ := Option.map_eq_some_iff.mp hrun
  exact ⟨s, (kept_of_orderly (Reach.of_exec _ _ (.init rfl) hs)).1, congrArg Prod.fst heq, congrArg Prod.snd heq⟩

/-- The function is stored and its status is not. -/
def halfStored : List (KbInput String) :=
  [.upload "a", .createFunc 0, .uid 0 1, .fileOp 0, .fileOp 0, .store 0 true false, .fileOp 0]

/-- The file goes back, and the function is without one. -/
theorem stored_without_file : ∃ s : KbState String,
    Reach KbState.next Started (fun _ _ => True) s ∧ ¬ s.Kept := by
  have hrun : ((exec KbState.next (fun _ _ => True) {} halfStored).map fun s => (s.stored, s.file 1)) =
      some ([1], none) := by decide +kernel
  have hcalls : ∀ n, ((exec KbState.next (fun _ _ => True) {} halfStored).map fun s => s.calls n) = some none := by
    intro n
    cases n with
    | zero => decide +kernel
    | succ n => rfl
  obtain ⟨s, hs, heq⟩ := Option.map_eq_some_iff.mp hrun
  obtain ⟨hstored, hfile⟩ := Prod.ext_iff.mp heq
  refine ⟨s, Reach.of_exec _ _ (.init rfl) hs, fun h => ?_⟩
  have hidle : ∀ n, s.calls n = none := by
    intro n
    have hn := hcalls n
    rw [hs] at hn
    exact Option.some.inj hn
  have hsome := h.stored hidle 1 (congrArg List.head? hstored)
  have hnone : s.file 1 = none := hfile
  rw [hnone] at hsome
  cases hsome

end KbState

end Inferx.Gateway.KnowledgeBase
