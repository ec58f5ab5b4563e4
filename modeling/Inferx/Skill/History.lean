import Inferx.Skill.Response

/-!
# The history of a chain

A turn of the model that asks for calls adds to the history the calls as the model wrote
them and, for each, what became of it. The calls run side by side and end in any order;
their results are put in their places by index. If one of the calls is for a tool that is
not there, none is made and each gets an answer that says so.
-/

namespace Inferx.Skill

open Inferx.Gateway

/-! ## Turns -/

/-- `ChatMessage`. -/
inductive ChatMessage where
  | assistant (content : Value) (toolCalls : List Value)
  | tool (toolCallId content : String)

/-- The message as it stands in the history. -/
def ChatMessage.toValue : ChatMessage → Value
  | .assistant content toolCalls =>
    .object [("role", .string "assistant"), ("content", content), ("tool_calls", .array toolCalls)]
  | .tool toolCallId content =>
    .object [("role", .string "tool"), ("tool_call_id", .string toolCallId),
      ("content", .string content)]

/-- `format_child_tool_error`. -/
def formatChildToolError (message : String) : String :=
  if "Error: ".toList.isPrefixOf message.toList then message else s!"Error: {message}"

/-- `SKILL_CHAIN_TOOL_NAME`. -/
def skillChainToolName : String := "call_skillep"

/-- A result is put in its place. -/
def place (results : List (Option ParallelChildResult)) (result : ParallelChildResult) :
    List (Option ParallelChildResult) :=
  (if results.length ≤ result.originalIndex then
      results ++ List.replicate (result.originalIndex + 1 - results.length) none
    else results).set result.originalIndex (some result)

/-- `drive_parallel_child_tasks`, for the results in the order in which they come. -/
def driveParallelChildTasks (completed : List ParallelChildResult) : List ParallelChildResult :=
  (completed.foldl place []).filterMap id

/-- What a chain is run with. -/
structure SkillChain where
  serde : ResponseSerde
  /-- how the arguments of a call are read -/
  fromStr : String → Option Value
  context : ParallelChildTaskContext

/-- What comes in a turn: the response of the model, what each call makes of the answer to its
request, and the order in which the calls end. -/
structure ModelTurn where
  body : ByteArray
  answer : ℕ → ChildRequest → String × Option SkillTraceFailReason × Option SkillTraceTokenUsage
  order : List ParallelChildResult → List ParallelChildResult

/-- Each call ends once. -/
def ModelTurn.Fair (t : ModelTurn) : Prop := ∀ results, (t.order results).Perm results

/-- How a turn ends. -/
inductive TurnResult where
  /-- the response is the answer -/
  | final (isOpenaiChatCompletion : Bool)
  | failed (message : String)
  /-- there is another turn, with this history -/
  | next (history : List Value)

/-- The results of the calls of a turn, in their order. -/
def SkillChain.results (chain : SkillChain) (t : ModelTurn) (calls : List ParsedSkillToolCall) :
    List ParallelChildResult :=
  calls.mapIdx fun i call =>
    (executeParallelChildCall chain.fromStr (t.answer i) ⟨i, call⟩ chain.context).1

/-- A turn of `execute_skill_chain`. -/
def SkillChain.turn (chain : SkillChain) (history : List Value) (t : ModelTurn) : TurnResult :=
  match parseSkillResponse chain.serde t.body with
  | none => .final false
  | some parsed =>
    if parsed.toolCalls.isEmpty then .final true
    else
      match extractRawToolCalls chain.serde t.body with
      | none => .failed "service failure: failed to preserve tool call history"
      | some rawToolCalls =>
        let history := history ++ [(ChatMessage.assistant .null rawToolCalls).toValue]
        if parsed.toolCalls.any (fun call => call.name != skillChainToolName) then
          .next (history ++ parsed.toolCalls.map fun call =>
            (ChatMessage.tool call.id (if call.name = skillChainToolName then
                "Error: turn aborted (other tool in same response was unsupported)"
              else formatChildToolError s!"unsupported tool '{call.name}'")).toValue)
        else
          let childResults := driveParallelChildTasks (t.order (chain.results t parsed.toolCalls))
          .next (history ++ childResults.map fun result =>
            (ChatMessage.tool result.toolCallId result.toolResult).toValue)

/-! ## Results in their places -/

section Places

variable {results : List (Option ParallelChildResult)} {result : ParallelChildResult}
  {completed l : List ParallelChildResult} {i : ℕ}

/-- What stands in a place. -/
def slot (results : List (Option ParallelChildResult)) (i : ℕ) : Option ParallelChildResult :=
  results[i]?.join

theorem length_place :
    (place results result).length = max results.length (result.originalIndex + 1) := by
  unfold place
  rw [List.length_set]
  split
  next h =>
    rw [List.length_append, List.length_replicate]
    omega
  next h => omega

theorem slot_place :
    slot (place results result) i = if i = result.originalIndex then some result
    else slot results i := by
  unfold slot place
  by_cases hi : i = result.originalIndex
  · rw [if_pos hi, hi, List.getElem?_set_self]
    · rfl
    · split
      next h =>
        rw [List.length_append, List.length_replicate]
        omega
      next h => omega
  · rw [if_neg hi, List.getElem?_set_ne (Ne.symm hi)]
    split
    next h =>
      rw [List.getElem?_append]
      split
      next => rfl
      next hout =>
        -- the places that are new are empty
        rw [List.getElem?_replicate, List.getElem?_eq_none (Nat.not_lt.mp hout)]
        split
        next => rfl
        next => rfl
    next => rfl

theorem slot_foldl_of_ne (h : ∀ r ∈ completed, r.originalIndex ≠ i) :
    slot (completed.foldl place results) i = slot results i := by
  induction completed generalizing results with
  | nil => rfl
  | cons a completed ih =>
    rw [List.foldl_cons, ih fun r hr => h r (List.mem_cons_of_mem a hr), slot_place,
      if_neg fun heq => h a List.mem_cons_self heq.symm]

/-- A result is where it belongs. -/
theorem slot_foldl (results : List (Option ParallelChildResult))
    (hnodup : (completed.map ParallelChildResult.originalIndex).Nodup) (hmem : result ∈ completed) :
    slot (completed.foldl place results) result.originalIndex = some result := by
  induction completed generalizing results with
  | nil => exact nomatch hmem
  | cons a completed ih =>
    obtain ⟨hfresh, hnodup⟩ := List.nodup_cons.mp hnodup
    rw [List.foldl_cons]
    rcases List.mem_cons.mp hmem with rfl | hmem
    · rw [slot_foldl_of_ne fun r hr heq => hfresh (List.mem_map.mpr ⟨r, hr, heq⟩), slot_place,
        if_pos rfl]
    · exact ih (place results a) hnodup hmem

theorem length_foldl_place {n : ℕ} (h : ∀ r ∈ completed, r.originalIndex < n)
    (hlen : results.length ≤ n) : (completed.foldl place results).length ≤ n := by
  induction completed generalizing results with
  | nil => exact hlen
  | cons a completed ih =>
    refine ih (fun r hr => h r (List.mem_cons_of_mem a hr)) ?_
    rw [length_place]
    have ha := h a List.mem_cons_self
    omega

/-- **Any order.** However the results come, they are given out in the order of their places. -/
theorem drive_perm (hplaces : ∀ i (hi : i < l.length), l[i].originalIndex = i)
    (hperm : completed.Perm l) : driveParallelChildTasks completed = l := by
  have hnodup : (completed.map ParallelChildResult.originalIndex).Nodup := by
    refine (hperm.map _).nodup_iff.mpr ?_
    have hrange : l.map ParallelChildResult.originalIndex = List.range l.length := by
      refine List.ext_getElem (by simp) fun i hi hi' => ?_
      rw [List.getElem_map, List.getElem_range]
      exact hplaces i _
    rw [hrange]
    exact List.nodup_range
  have hlt : ∀ r ∈ completed, r.originalIndex < l.length := by
    intro r hr
    obtain ⟨i, hi, rfl⟩ := List.mem_iff_getElem.mp (hperm.mem_iff.mp hr)
    rw [hplaces i hi]
    exact hi
  have hall : completed.foldl place [] = l.map some := by
    refine List.ext_getElem? fun i => ?_
    rw [List.getElem?_map]
    by_cases hi : i < l.length
    · have hslot := slot_foldl [] hnodup (hperm.mem_iff.mpr (List.getElem_mem hi))
      rw [hplaces i hi] at hslot
      rw [List.getElem?_eq_getElem hi]
      exact Option.join_eq_some_iff.mp hslot
    · rw [List.getElem?_eq_none (Nat.not_lt.mp hi)]
      exact List.getElem?_eq_none ((length_foldl_place hlt (Nat.zero_le _)).trans
        (Nat.not_lt.mp hi))
  unfold driveParallelChildTasks
  rw [hall, List.filterMap_map]
  exact List.filterMap_some

end Places

/-! ## The promise -/

/-- What a turn adds to the history: the calls as they were written, then for each call a message
with its id. -/
def exchange (raw : List Value) (calls : List ParsedSkillToolCall) (contents : List String) :
    List Value :=
  (ChatMessage.assistant .null raw).toValue ::
    List.zipWith (fun call content => (ChatMessage.tool call.id content).toValue) calls contents

/-- The history stays a conversation: every turn with calls adds the calls of its response and an
answer to each, and does not fail. -/
def KeepsConversation (chain : SkillChain) : List Value → List ModelTurn → Prop
  | _, [] => True
  | history, t :: turns => ∀ parsed, parseSkillResponse chain.serde t.body = some parsed →
    parsed.toolCalls ≠ [] → ∃ raw contents, extractRawToolCalls chain.serde t.body = some raw ∧
      callsOf raw = some parsed.toolCalls ∧ contents.length = parsed.toolCalls.length ∧
      chain.turn history t = .next (history ++ exchange raw parsed.toolCalls contents) ∧
      KeepsConversation chain (history ++ exchange raw parsed.toolCalls contents) turns

/-- Every turn that is reached and has calls reads alike. -/
def AllReadAlike (chain : SkillChain) : List ModelTurn → Prop
  | [] => True
  | t :: turns => ∀ parsed, parseSkillResponse chain.serde t.body = some parsed →
    parsed.toolCalls ≠ [] → ReadsAlike chain.serde t.body ∧ AllReadAlike chain turns

section Promise

variable {chain : SkillChain} {t : ModelTurn} {history : List Value} {raw : List Value}
  {parsed : ParsedToolResponse} {calls : List ParsedSkillToolCall}

/-- A result has the place and the id of its call. -/
theorem result_of_call (fromStr : String → Option Value)
    (answer : ChildRequest → String × Option SkillTraceFailReason × Option SkillTraceTokenUsage)
    (task : ParallelChildTaskInput) (context : ParallelChildTaskContext) :
    (executeParallelChildCall fromStr answer task context).1.originalIndex = task.originalIndex ∧
      (executeParallelChildCall fromStr answer task context).1.toolCallId = task.call.id := by
  unfold executeParallelChildCall
  dsimp only
  split
  next => exact ⟨rfl, rfl⟩
  next =>
    split
    next => exact ⟨rfl, rfl⟩
    next =>
      split
      next => exact ⟨rfl, rfl⟩
      next =>
        split
        next => exact ⟨rfl, rfl⟩
        next =>
          split
          next => exact ⟨rfl, rfl⟩
          next => exact ⟨rfl, rfl⟩

/-- The results of a turn come out in the order of its calls. -/
theorem drive_results (hfair : t.Fair) (calls : List ParsedSkillToolCall) :
    driveParallelChildTasks (t.order (chain.results t calls)) = chain.results t calls := by
  unfold SkillChain.results
  refine drive_perm (fun i hi => ?_) (hfair _)
  rw [List.getElem_mapIdx]
  exact (result_of_call ..).1

theorem messages_of_results (calls : List ParsedSkillToolCall) :
    ((chain.results t calls).map fun result =>
      (ChatMessage.tool result.toolCallId result.toolResult).toValue) =
      List.zipWith (fun call content => (ChatMessage.tool call.id content).toValue) calls
        ((chain.results t calls).map ParallelChildResult.toolResult) := by
  unfold SkillChain.results
  refine List.ext_getElem (by simp) fun i hi hi' => ?_
  simp only [List.getElem_map, List.getElem_mapIdx, List.getElem_zipWith]
  rw [(result_of_call ..).2]

theorem messages_of_calls (contentOf : ParsedSkillToolCall → String)
    (calls : List ParsedSkillToolCall) :
    (calls.map fun call => (ChatMessage.tool call.id (contentOf call)).toValue) =
      List.zipWith (fun call content => (ChatMessage.tool call.id content).toValue) calls
        (calls.map contentOf) := by
  rw [List.zipWith_map_right, List.zipWith_self]

/-- **The step.** A turn whose calls are extracted adds them and an answer to each, on either
branch. -/
theorem turn_of_extract (hfair : t.Fair)
    (hparse : parseSkillResponse chain.serde t.body = some parsed)
    (hne : parsed.toolCalls ≠ []) (hextract : extractRawToolCalls chain.serde t.body = some raw) :
    ∃ contents, contents.length = parsed.toolCalls.length ∧
      chain.turn history t = .next (history ++ exchange raw parsed.toolCalls contents) := by
  have hempty : ¬ parsed.toolCalls.isEmpty = true := fun h => hne (List.isEmpty_iff.mp h)
  unfold SkillChain.turn exchange
  rw [hparse]
  dsimp only
  rw [if_neg hempty, hextract]
  dsimp only
  split
  next =>
    refine ⟨parsed.toolCalls.map fun call => if call.name = skillChainToolName then
      "Error: turn aborted (other tool in same response was unsupported)"
      else formatChildToolError s!"unsupported tool '{call.name}'", List.length_map .., ?_⟩
    rw [messages_of_calls, List.append_assoc, List.singleton_append]
  next =>
    refine ⟨(chain.results t parsed.toolCalls).map ParallelChildResult.toolResult, ?_, ?_⟩
    · unfold SkillChain.results
      rw [List.length_map, List.length_mapIdx]
    · rw [drive_results hfair, messages_of_results, List.append_assoc, List.singleton_append]

/-- **The history.** It stays a conversation over a whole run exactly if every response with calls
is read alike by both readers. -/
theorem keepsConversation_iff (hserde : chain.serde.Coherent) (turns : List ModelTurn)
    (hfair : ∀ t ∈ turns, t.Fair) (history : List Value) :
    KeepsConversation chain history turns ↔ AllReadAlike chain turns := by
  induction turns generalizing history with
  | nil => exact Iff.rfl
  | cons t turns ih =>
    have hrest := ih fun t' ht' => hfair t' (List.mem_cons_of_mem t ht')
    unfold KeepsConversation AllReadAlike
    refine forall_congr' fun parsed => forall_congr' fun hparse => forall_congr' fun hne => ?_
    constructor
    · rintro ⟨raw, contents, hextract, hcalls, -, -, hkeeps⟩
      exact ⟨(extract_iff hserde hparse hne).mp ⟨raw, hextract, hcalls⟩, (hrest _).mp hkeeps⟩
    · rintro ⟨halike, hall⟩
      obtain ⟨raw, hextract, hcalls⟩ := (extract_iff hserde hparse hne).mpr halike
      obtain ⟨contents, hlen, hturn⟩ :=
        turn_of_extract (hfair t List.mem_cons_self) hparse hne hextract
      exact ⟨raw, contents, hextract, hcalls, hlen, hturn, (hrest _).mpr hall⟩

end Promise

/-! ## Two responses -/

/-- Bytes read as values, and structs from the values. -/
def ResponseSerde.ofValue (value : ByteArray → Option Value) : ResponseSerde where
  typed body := (value body).bind readResponse
  value := value
  toText _ := ""

theorem ResponseSerde.coherent_ofValue (value : ByteArray → Option Value) :
    (ResponseSerde.ofValue value).Coherent := by
  intro body v r hv hr
  have htyped : (value body).bind readResponse = some r := hr
  rw [show value body = some v from hv] at htyped
  exact htyped

/-- A call of the skill tool. -/
def sampleCall (id : String) : Value :=
  .object [("id", .string id), ("function", .object [("name", .string skillChainToolName),
    ("arguments", .string "[]")])]

/-- A chain whose model says a text that means a value. -/
def sampleChain (text : String) (v : Value) : SkillChain where
  serde := .ofValue fun body => if body.data = text.toUTF8.data then some v else none
  fromStr s := if s = "[]" then some (.array []) else none
  context := { currentDepth := 0 }

theorem sampleChain_value (text : String) (v : Value) :
    (sampleChain text v).serde.value text.toUTF8 = some v := if_pos rfl

theorem sampleChain_typed (text : String) (v : Value) :
    (sampleChain text v).serde.typed text.toUTF8 = readResponse v := by
  show ((sampleChain text v).serde.value text.toUTF8).bind readResponse = _
  rw [sampleChain_value]
  rfl

/-- A turn with this text; the calls end the other way round. -/
def sampleTurn (text : String) : ModelTurn where
  body := text.toUTF8
  answer _ _ := ("", none, none)
  order := List.reverse

/-- Two calls in a message, and the second one ends first. -/
theorem keepsConversation_two :
    let call := fun id => "\x7b\"id\":\"" ++ id ++
      "\",\"function\":\x7b\"name\":\"call_skillep\",\"arguments\":\"[]\"\x7d\x7d"
    let text := "\x7b\"choices\":[\x7b\"message\":\x7b\"tool_calls\":[" ++ call "a" ++ "," ++
      call "b" ++ "]\x7d\x7d]\x7d"
    let chain := sampleChain text (.object [("choices", .array [.object [("message",
      .object [("tool_calls", .array [sampleCall "a", sampleCall "b"])])]])])
    KeepsConversation chain [] [sampleTurn text] := by
  intro call text chain
  refine (keepsConversation_iff (ResponseSerde.coherent_ofValue _) _ (fun t ht => ?_) []).mpr
    fun parsed hparse hne => ⟨?_, trivial⟩
  · rw [List.mem_singleton.mp ht]
    exact fun results => List.reverse_perm results
  · exact ⟨_, _, sampleChain_value _ _, rfl, Or.inl ⟨_, _, rfl, rfl⟩⟩

/-- **A member that is null.** The calls of the delta are parsed, for `null` is no calls, but they
are not extracted, for the message has a member of that name. -/
theorem null_calls_fail :
    let text := "\x7b\"choices\":[\x7b\"message\":\x7b\"tool_calls\":null\x7d," ++
      "\"delta\":\x7b\"tool_calls\":[\x7b\"id\":\"a\",\"function\":\x7b\"name\":" ++
      "\"call_skillep\",\"arguments\":\"[]\"\x7d\x7d]\x7d\x7d]\x7d"
    let chain := sampleChain text (.object [("choices", .array [.object [
      ("message", .object [("tool_calls", .null)]),
      ("delta", .object [("tool_calls", .array [sampleCall "a"])])]])])
    (parseSkillResponse chain.serde text.toUTF8).map ParsedToolResponse.toolCalls
        = some [{ id := "a", name := "call_skillep", arguments := "[]" }] ∧
      (extractRawToolCalls chain.serde text.toUTF8).isNone = true ∧
      ¬ KeepsConversation chain [] [sampleTurn text] := by
  intro text chain
  have hparse : (parseSkillResponse chain.serde text.toUTF8).map ParsedToolResponse.toolCalls
      = some [{ id := "a", name := "call_skillep", arguments := "[]" }] := by
    unfold parseSkillResponse
    rw [sampleChain_typed]
    decide +kernel
  have hextract : (extractRawToolCalls chain.serde text.toUTF8).isNone = true := by
    unfold extractRawToolCalls
    rw [sampleChain_value]
    decide +kernel
  refine ⟨hparse, hextract, fun hkeeps => ?_⟩
  obtain ⟨parsed, hparsed, hcalls⟩ := Option.map_eq_some_iff.mp hparse
  have hne : parsed.toolCalls ≠ [] := by
    rw [hcalls]
    exact List.cons_ne_nil _ _
  obtain ⟨raw, -, hraw, -⟩ := hkeeps parsed hparsed hne
  have hnone := Option.isNone_iff_eq_none.mp hextract
  exact nomatch hnone.symm.trans hraw

end Inferx.Skill
