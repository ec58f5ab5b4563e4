import Mathlib.Data.Nat.Basic
import Mathlib.Tactic.Common

/-!
# The usage of a skill call

A skill call adds up the usage of its model turns and of the calls that its turns ask
for. What a child has used reaches its parent by two ways: the terminal event of the
child's trace carries the child's own sum, the body of its answer the usage of its last
model turn only. Where a child returns normally the parent takes the body's. A trace gives
the first line of a body only, so the body of a traced child has to stand in one line; where
it does not, it is no answer to the parent, which takes the child's own sum.
-/

namespace Inferx.Skill

/-- `SkillTraceTokenUsage`. -/
structure SkillTraceTokenUsage where
  promptTokens : UInt64
  completionTokens : UInt64
  totalTokens : UInt64
  deriving DecidableEq, Repr

/-- The counters of a usage. -/
inductive Counter where
  | prompt | completion | total
  deriving DecidableEq, Repr

def SkillTraceTokenUsage.get (u : SkillTraceTokenUsage) : Counter → UInt64
  | .prompt => u.promptTokens
  | .completion => u.completionTokens
  | .total => u.totalTokens

/-- `u64::MAX`. -/
def maxCount : ℕ := 18446744073709551615

/-- `u64::saturating_add`. -/
def saturatingAdd (a b : UInt64) : UInt64 := if a + b < a then 18446744073709551615 else a + b

/-- `add_assign`. -/
def SkillTraceTokenUsage.addAssign (u other : SkillTraceTokenUsage) : SkillTraceTokenUsage where
  promptTokens := saturatingAdd u.promptTokens other.promptTokens
  completionTokens := saturatingAdd u.completionTokens other.completionTokens
  totalTokens := saturatingAdd u.totalTokens other.totalTokens

/-- A usage, if there is one, added to what there is so far. -/
def addUsage (aggregate : Option SkillTraceTokenUsage) :
    Option SkillTraceTokenUsage → Option SkillTraceTokenUsage
  | none => aggregate
  | some u =>
    match aggregate with
    | some a => some (a.addAssign u)
    | none => some u

/-! ## Answers -/

/-- What is used of `ParsedSkillResponse`. -/
structure ParsedSkillResponse where
  finalText : Option String := none
  usage : Option SkillTraceTokenUsage := none
  deriving DecidableEq, Repr

/-- What is used of `ChildTraceReadResult`; a body is what `parse_skill_response` makes of it. -/
structure ChildTraceReadResult where
  skillResult : Option (Option ParsedSkillResponse) := none
  terminalResultCode : Option String := none
  terminalUsage : Option SkillTraceTokenUsage := none
  openDescendants : List String := []
  deriving DecidableEq, Repr

/-- The usage that `execute_parallel_child_call` takes from what it gets of a child: an error, or
whether the status is a success and what was read. -/
def childUsage : Except Unit (Bool × ChildTraceReadResult) → Option SkillTraceTokenUsage
  | .error () => none
  | .ok (success, childResult) =>
    if success = false then childResult.terminalUsage
    else if childResult.openDescendants ≠ [] then childResult.terminalUsage
    else if childResult.terminalResultCode = some "fail" then childResult.terminalUsage
    else
      match childResult.skillResult with
      | some (some parsedChild) => parsedChild.usage
      | some none => childResult.terminalUsage
      | none => childResult.terminalUsage

/-! ## Calls -/

/-- How an answer gets to the parent. -/
inductive Delivery where
  /-- whole -/
  | whole
  /-- not at all, or broken off -/
  | lost
  /-- the gateway answers with an error status and a body -/
  | refused (body : Option ParsedSkillResponse)
  deriving DecidableEq, Repr

/-- What a skill call goes through: turns of its model, behind each turn that asks for calls their
results, in the order in which they were asked for, and an end. -/
inductive SkillRun where
  /-- a request that fails, or a cancelled one -/
  | error
  /-- an answer that is no chat completion -/
  | other (success : Bool)
  /-- a turn without tool calls; `oneLine` tells whether its body stands in its first line, which
  `parse_skill_response` then reads as it reads the body, and otherwise not at all: a JSON text
  ends with its object -/
  | final (success : Bool) (parsed : ParsedSkillResponse) (oneLine : Bool)
  /-- a turn with tool calls -/
  | turn (usage : Option SkillTraceTokenUsage) (rest : SkillRun)
  /-- a tool call that makes no call: its arguments are refused, it is mocked, or too deep -/
  | noCall (rest : SkillRun)
  | call (child : SkillRun) (delivery : Delivery) (rest : SkillRun)
  deriving DecidableEq, Repr

/-- What `execute_skill_chain` returns. -/
inductive SkillChainOutcome where
  | error
  | response (success : Bool) (body : Option ParsedSkillResponse) (oneLine isOpenai : Bool)
      (usage : Option SkillTraceTokenUsage)
  deriving DecidableEq, Repr

/-- The result code and the usage of the `call_finish` event. -/
def SkillChainOutcome.finish : SkillChainOutcome → String × Option SkillTraceTokenUsage
  | .response _ _ _ true usage => ("pass", usage)
  | .response _ _ _ false _ => ("fail", none)
  | .error => ("fail", none)

/-- What the parent gets of a child that ends so, with or without a trace: `emit_trace_skill_result`
writes the body behind one `data:`, and `read_child_trace_sse` takes that line for it. -/
def SkillChainOutcome.answer (outcome : SkillChainOutcome) (traced : Bool) :
    Delivery → Except Unit (Bool × ChildTraceReadResult)
  | .lost => .error ()
  | .refused body => .ok (false, { skillResult := some body })
  | .whole =>
    if traced then
      .ok (true, {
        skillResult :=
          match outcome with
          | .response _ body oneLine true _ => some (if oneLine then body else none)
          | _ => none
        terminalResultCode := some outcome.finish.1
        terminalUsage := outcome.finish.2 })
    else
      match outcome with
      | .response success body _ _ _ => .ok (success, { skillResult := some body })
      | .error => .ok (false, { skillResult := some none })

/-- `execute_skill_chain`, with the usage so far. -/
def execute (traced : Bool) : SkillRun → Option SkillTraceTokenUsage → SkillChainOutcome
  | .error, _ => .error
  | .other success, usage => .response success none true false usage
  | .final success parsed oneLine, usage =>
    .response success (some parsed) oneLine true (addUsage usage parsed.usage)
  | .turn u rest, usage => execute traced rest (addUsage usage u)
  | .noCall rest, usage => execute traced rest usage
  | .call child delivery rest, usage =>
    execute traced rest
      (addUsage usage (childUsage ((execute traced child none).answer traced delivery)))

/-! ## The sum over the tree -/

/-- How a call ends, if with a chat completion. -/
def SkillRun.ending : SkillRun → Option (Bool × ParsedSkillResponse)
  | .error | .other _ => none
  | .final success parsed _ => some (success, parsed)
  | .turn _ rest | .noCall rest | .call _ _ rest => rest.ending

/-- Does the body of the answer stand in one line? -/
def SkillRun.oneLine : SkillRun → Bool
  | .error | .other _ => true
  | .final _ _ oneLine => oneLine
  | .turn _ rest | .noCall rest | .call _ _ rest => rest.oneLine

/-- The call returns normally: its answer arrives whole, and is a chat completion with a status of
success; a traced answer always has one. -/
def Returned (traced : Bool) (child : SkillRun) (delivery : Delivery) : Bool :=
  decide (delivery = .whole) &&
    match child.ending with
    | some (success, _) => traced || success
    | none => false

/-- The tokens of a usage, if there is one. -/
def tokens (k : Counter) (u : Option SkillTraceTokenUsage) : ℕ := (u.map fun u => (u.get k).toNat).getD 0

/-- **The sum**: the usage of all turns of a call, and of every call below it that returned
normally. -/
def SkillRun.total (traced : Bool) (k : Counter) : SkillRun → ℕ
  | .error | .other _ => 0
  | .final _ parsed _ => tokens k parsed.usage
  | .turn u rest => tokens k u + rest.total traced k
  | .noCall rest => rest.total traced k
  | .call child delivery rest =>
    (if Returned traced child delivery then child.total traced k else 0) + rest.total traced k

/-- The same without the last turn of the call itself. -/
def SkillRun.earlier (traced : Bool) (k : Counter) : SkillRun → ℕ
  | .error | .other _ | .final _ _ _ => 0
  | .turn u rest => tokens k u + rest.earlier traced k
  | .noCall rest => rest.earlier traced k
  | .call child delivery rest =>
    (if Returned traced child delivery then child.total traced k else 0) + rest.earlier traced k

/-- The usage of the last turn of a call. -/
def SkillRun.lastUsage (run : SkillRun) : Option SkillTraceTokenUsage :=
  run.ending.bind fun e => e.2.usage

/-- The parent gets the body of the child's answer, and not only its own sum. -/
def Told (traced : Bool) (child : SkillRun) : Bool := !traced || child.oneLine

/-- All that a call below has used before its last turn is lost where its body is told. Where the
parent takes the child's own sum it goes by the calls that the child made in turn. -/
def SkillRun.Exact (traced : Bool) (k : Counter) : SkillRun → Prop
  | .error | .other _ | .final _ _ _ => True
  | .turn _ rest | .noCall rest => rest.Exact traced k
  | .call child delivery rest =>
    (Returned traced child delivery = true →
      if Told traced child then child.earlier traced k = 0 else child.Exact traced k) ∧
    rest.Exact traced k

/-! ## What is counted -/

/-- The usage of the turns of a call, and of each call that it made itself and that returned
normally: of its last turn where its body is told, and else of what is counted there. -/
def SkillRun.counted (traced : Bool) (k : Counter) : SkillRun → ℕ
  | .error | .other _ => 0
  | .final _ parsed _ => tokens k parsed.usage
  | .turn u rest => tokens k u + rest.counted traced k
  | .noCall rest => rest.counted traced k
  | .call child delivery rest =>
    (if Returned traced child delivery then
      if Told traced child then tokens k child.lastUsage else child.counted traced k
    else 0) + rest.counted traced k

theorem saturatingAdd_toNat (a b : UInt64) :
    (saturatingAdd a b).toNat = min (a.toNat + b.toNat) maxCount := by
  have ha := a.toNat_lt
  have hb := b.toNat_lt
  have hadd : (a + b).toNat = (a.toNat + b.toNat) % 18446744073709551616 := UInt64.toNat_add a b
  unfold saturatingAdd maxCount
  by_cases hlt : a + b < a
  · rw [if_pos hlt]
    rw [UInt64.lt_iff_toNat_lt, hadd] at hlt
    show 18446744073709551615 = _
    omega
  · rw [if_neg hlt, hadd]
    rw [UInt64.lt_iff_toNat_lt, hadd] at hlt
    omega

theorem tokens_le (k : Counter) (u : Option SkillTraceTokenUsage) : tokens k u ≤ maxCount := by
  rcases u with _ | u
  · exact Nat.zero_le _
  · exact Nat.le_of_lt_succ (u.get k).toNat_lt

theorem tokens_addUsage (k : Counter) (a u : Option SkillTraceTokenUsage) :
    tokens k (addUsage a u) = min (tokens k a + tokens k u) maxCount := by
  have ha := tokens_le k a
  have hu := tokens_le k u
  rcases u with _ | u
  · show tokens k a = min (tokens k a + 0) maxCount
    omega
  · rcases a with _ | a
    · show tokens k (some u) = min (0 + tokens k (some u)) maxCount
      omega
    · cases k <;> exact saturatingAdd_toNat _ _

/-- What a call returns goes by how it ends. -/
theorem execute_ending (traced : Bool) (run : SkillRun) (usage : Option SkillTraceTokenUsage) :
    (∃ success parsed usage', run.ending = some (success, parsed) ∧
        execute traced run usage = .response success (some parsed) run.oneLine true usage') ∨
      run.ending = none ∧ (execute traced run usage = .error ∨
        ∃ success usage', execute traced run usage = .response success none true false usage') := by
  induction run generalizing usage with
  | error => exact .inr ⟨rfl, .inl rfl⟩
  | other success => exact .inr ⟨rfl, .inr ⟨success, usage, rfl⟩⟩
  | final success parsed oneLine => exact .inl ⟨success, parsed, _, rfl, rfl⟩
  | turn u rest ih => exact ih (addUsage usage u)
  | noCall rest ih => exact ih usage
  | call child delivery rest _ ih => exact ih _

/-- **What a parent takes of a child**: the usage of its last turn where its body is told, and else
what the child reports. -/
theorem childUsage_answer (traced : Bool) (child : SkillRun) (delivery : Delivery) :
    childUsage ((execute traced child none).answer traced delivery)
      = if Returned traced child delivery then
          if Told traced child then child.lastUsage else (execute traced child none).finish.2
        else none := by
  unfold Returned Told SkillRun.lastUsage
  rcases execute_ending traced child none with ⟨success, parsed, usage', hend, hrun⟩ |
    ⟨hend, hrun | ⟨success, usage', hrun⟩⟩
  · rw [hend, hrun]
    cases delivery with
    | whole =>
      cases traced with
      | true => cases child.oneLine <;> rfl
      | false => cases success <;> rfl
    | lost => rfl
    | refused body => rfl
  · rw [hend, hrun]
    cases delivery with
    | whole => cases traced <;> rfl
    | lost => rfl
    | refused body => rfl
  · rw [hend, hrun]
    cases delivery with
    | whole =>
      cases traced with
      | true => rfl
      | false => cases success <;> rfl
    | lost => rfl
    | refused body => rfl

/-- A call that returned normally has ended with a chat completion. -/
theorem ending_of_returned {traced : Bool} {child : SkillRun} {delivery : Delivery}
    (h : Returned traced child delivery = true) : ∃ e, child.ending = some e := by
  unfold Returned at h
  rw [Bool.and_eq_true] at h
  rcases hend : child.ending with _ | e
  · rw [hend] at h
    cases h.2
  · exact ⟨e, rfl⟩

/-- A call that ends with a chat completion reports what is counted. -/
theorem execute_counted (traced : Bool) {run : SkillRun} {e : Bool × ParsedSkillResponse}
    (h : run.ending = some e) (usage : Option SkillTraceTokenUsage) (k : Counter) :
    tokens k (execute traced run usage).finish.2
      = min (tokens k usage + run.counted traced k) maxCount := by
  induction run generalizing usage e with
  | error => cases h
  | other => cases h
  | final success parsed oneLine => exact tokens_addUsage k usage parsed.usage
  | turn u rest ih =>
    have hsum := tokens_addUsage k usage u
    rw [execute, ih h, SkillRun.counted, hsum]
    omega
  | noCall rest ih => exact ih h usage
  | call child delivery rest ihchild ih =>
    have hsum := tokens_addUsage k usage
      (childUsage ((execute traced child none).answer traced delivery))
    rw [execute, ih h, SkillRun.counted, hsum, childUsage_answer]
    have hnone : tokens k none = 0 := rfl
    by_cases hret : Returned traced child delivery = true
    · rw [if_pos hret, if_pos hret]
      by_cases htold : Told traced child = true
      · rw [if_pos htold, if_pos htold]
        omega
      · -- the child's own report
        obtain ⟨_, hend⟩ := ending_of_returned hret
        rw [if_neg htold, if_neg htold, ihchild hend none, hnone]
        omega
    · rw [if_neg hret, if_neg hret, hnone]
      omega

/-! ## The sum and what is counted -/

theorem total_eq (traced : Bool) (k : Counter) (run : SkillRun) :
    run.total traced k = run.earlier traced k + tokens k run.lastUsage := by
  induction run with
  | error => rfl
  | other => rfl
  | final success parsed => exact (Nat.zero_add _).symm
  | turn u rest ih =>
    rw [SkillRun.total, SkillRun.earlier, ih, Nat.add_assoc]
    rfl
  | noCall rest ih => exact ih
  | call child delivery rest _ ih =>
    rw [SkillRun.total, SkillRun.earlier, ih, Nat.add_assoc]
    rfl

/-- No more is counted than there is, and all of it where nothing is lost. -/
theorem counted_le (traced : Bool) (k : Counter) (run : SkillRun) :
    run.counted traced k ≤ run.total traced k ∧
      (run.counted traced k = run.total traced k ↔ run.Exact traced k) := by
  induction run with
  | error => exact ⟨Nat.le_refl _, iff_of_true rfl trivial⟩
  | other => exact ⟨Nat.le_refl _, iff_of_true rfl trivial⟩
  | final => exact ⟨Nat.le_refl _, iff_of_true rfl trivial⟩
  | turn u rest ih =>
    exact ⟨Nat.add_le_add_left ih.1 _, Nat.add_left_cancel_iff.trans ih.2⟩
  | noCall rest ih => exact ih
  | call child delivery rest ihchild ih =>
    obtain ⟨hle, hexact⟩ := ih
    obtain ⟨hchild, hchildExact⟩ := ihchild
    have htotal := total_eq traced k child
    rw [SkillRun.Exact, ← hexact, SkillRun.counted, SkillRun.total]
    by_cases hret : Returned traced child delivery = true
    · rw [if_pos hret, if_pos hret, forall_prop_of_true hret]
      by_cases htold : Told traced child = true
      · rw [if_pos htold, if_pos htold]
        omega
      · rw [if_neg htold, if_neg htold, ← hchildExact]
        omega
    · rw [if_neg hret, if_neg hret, forall_prop_of_false hret, true_and]
      omega

/-- **When the reported usage is the sum**: every call that the call made itself and that returned
normally has used nothing but in its last turn, or its body is not told and its own report is the
sum; and the sum fits the counters. -/
theorem finish_eq_total_iff (traced : Bool) {run : SkillRun} (h : run.ending.isSome = true) :
    (∀ k, tokens k (execute traced run none).finish.2 = run.total traced k) ↔
      ∀ k, run.Exact traced k ∧ run.total traced k ≤ maxCount := by
  obtain ⟨e, he⟩ := Option.isSome_iff_exists.mp h
  refine forall_congr' fun k => ?_
  obtain ⟨hle, hiff⟩ := counted_le traced k run
  have hnone : tokens k none = 0 := rfl
  rw [execute_counted traced he, hnone, Nat.zero_add, ← hiff]
  omega

/-! ## A child of two turns -/

/-- A usage of `n` tokens in each counter. -/
def usageOf (n : UInt64) : Option SkillTraceTokenUsage := some ⟨n, n, n⟩

/-- A call that answers in one turn. -/
def oneTurn (n : UInt64) (oneLine : Bool := true) : SkillRun :=
  .final true { finalText := some "done", usage := usageOf n } oneLine

/-- A turn, a child of one turn, and the last turn. -/
def oneTurnChild : SkillRun := .turn (usageOf 1) (.call (oneTurn 5) .whole (oneTurn 2))

/-- The same with a child that asks for a call first, which is refused. -/
def twoTurnChild (oneLine : Bool) : SkillRun :=
  .turn (usageOf 1) (.call (.turn (usageOf 10) (.noCall (oneTurn 5 oneLine))) .whole (oneTurn 2))

/-- A child of one turn is counted. -/
theorem finish_one_turn : tokens .total (execute true oneTurnChild none).finish.2 = 8 := by
  have hsum : ∀ k, oneTurnChild.total true k = 8 := by
    intro k
    cases k <;> decide
  rw [← hsum .total]
  refine (finish_eq_total_iff true rfl).mpr (fun k => ⟨?_, ?_⟩) .total
  · exact ⟨fun _ => rfl, trivial⟩
  · rw [hsum k]
    decide

/-- Of a child of two turns only the second is counted, with and without a trace. -/
theorem finish_two_turns : tokens .total (execute true (twoTurnChild true) none).finish.2 = 8 ∧
    tokens .total (execute false (twoTurnChild true) none).finish.2 = 8 ∧
    (twoTurnChild true).total true .total = 18 ∧ (twoTurnChild true).total false .total = 18 := by
  decide

/-- With a body of several lines the trace makes the parent take the child's own sum. -/
example : tokens .total (execute true (twoTurnChild false) none).finish.2 = 18 ∧
    tokens .total (execute false (twoTurnChild false) none).finish.2 = 8 := by decide

end Inferx.Skill
