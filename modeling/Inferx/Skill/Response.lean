import Inferx.Gateway.Metering
import Inferx.Skill.ChildCall

/-!
# Two readings of a response

The response of a model is read twice: into a struct, which gives the tool calls to be
made, and as plain JSON, which gives the calls as they were written, for the history. The
reader of structs takes an array for a struct and `null` for what is optional. The other
one looks members up by name, and a member that is `null` is there.
-/

namespace Inferx.Skill

open Inferx.Gateway

variable {α : Type}

/-! ## Structs -/

/-- `RawToolFunction`. -/
structure RawToolFunction where
  name : Option String
  arguments : Option String

/-- `RawToolCall`. -/
structure RawToolCall where
  id : Option String
  function : Option RawToolFunction

/-- `ChatMessagePayload`. -/
structure ChatMessagePayload where
  content : Option Value
  toolCalls : Option (List RawToolCall)

/-- `ChatChoice`. -/
structure ChatChoice where
  finishReason : Option String
  message : Option ChatMessagePayload
  delta : Option ChatMessagePayload

/-- `RawUsage`. -/
structure RawUsage where
  promptTokens : UInt64
  completionTokens : UInt64
  totalTokens : Option UInt64

/-- `ChatCompletionResponse`. -/
structure ChatCompletionResponse where
  choices : List ChatChoice
  usage : Option RawUsage

/-! ## The derived readers -/

/-- A struct is an object, or an array that is not too long. -/
def structOf (v : Value) (fields : ℕ) : Option Unit :=
  match v with
  | .object _ => some ()
  | .array l => if l.length ≤ fields then some () else none
  | _ => none

/-- A field of a struct, by its name or its place, and what stands for it when it is missing. -/
def fieldOf (v : Value) (i : ℕ) (name : String) (noKey tooShort : Option α)
    (read : Value → Option α) : Option α :=
  match v with
  | .object o =>
    match Object.get o name with
    | some x => read x
    | none => noKey
  | .array l =>
    match l[i]? with
    | some x => read x
    | none => tooShort
  | _ => none

/-- The reader of an `Option`. -/
def optionOf (read : Value → Option α) : Value → Option (Option α)
  | .null => some none
  | v => (read v).map some

/-- The reader of a `Vec`. -/
def vecOf (read : Value → Option α) : Value → Option (List α)
  | .array l => l.mapM read
  | _ => none

/-- `Value::as_array`. -/
def asArray : Value → Option (List Value)
  | .array l => some l
  | _ => none

def readToolFunction (v : Value) : Option RawToolFunction := do
  structOf v 2
  let name ← fieldOf v 0 "name" (some none) none (optionOf Value.asStr)
  let arguments ← fieldOf v 1 "arguments" (some none) none (optionOf Value.asStr)
  return ⟨name, arguments⟩

def readToolCall (v : Value) : Option RawToolCall := do
  structOf v 2
  let id ← fieldOf v 0 "id" (some none) none (optionOf Value.asStr)
  let function ← fieldOf v 1 "function" (some none) none (optionOf readToolFunction)
  return ⟨id, function⟩

def readMessage (v : Value) : Option ChatMessagePayload := do
  structOf v 2
  let content ← fieldOf v 0 "content" (some none) (some none) (optionOf some)
  let toolCalls ← fieldOf v 1 "tool_calls" (some none) (some none) (optionOf (vecOf readToolCall))
  return ⟨content, toolCalls⟩

def readChoice (v : Value) : Option ChatChoice := do
  structOf v 3
  let finishReason ← fieldOf v 0 "finish_reason" (some none) (some none) (optionOf Value.asStr)
  let message ← fieldOf v 1 "message" (some none) (some none) (optionOf readMessage)
  let delta ← fieldOf v 2 "delta" (some none) (some none) (optionOf readMessage)
  return ⟨finishReason, message, delta⟩

def readUsage (v : Value) : Option RawUsage := do
  structOf v 3
  let promptTokens ← fieldOf v 0 "prompt_tokens" (some 0) (some 0) Value.asU64
  let completionTokens ← fieldOf v 1 "completion_tokens" (some 0) (some 0) Value.asU64
  let totalTokens ← fieldOf v 2 "total_tokens" (some none) none (optionOf Value.asU64)
  return ⟨promptTokens, completionTokens, totalTokens⟩

def readResponse (v : Value) : Option ChatCompletionResponse := do
  structOf v 2
  let choices ← fieldOf v 0 "choices" none none (vecOf readChoice)
  let usage ← fieldOf v 1 "usage" (some none) (some none) (optionOf readUsage)
  return ⟨choices, usage⟩

/-! ## The two readings -/

/-- How the bytes of a response are read, into a struct and as a value, and how a value is
written. -/
structure ResponseSerde where
  typed : ByteArray → Option ChatCompletionResponse
  value : ByteArray → Option Value
  toText : Value → String

/-- Bytes that are read both ways are read to the same thing. -/
def ResponseSerde.Coherent (serde : ResponseSerde) : Prop :=
  ∀ body v r, serde.value body = some v → serde.typed body = some r → readResponse v = some r

/-- `ParsedSkillResponse`, with its calls. -/
structure ParsedToolResponse extends ParsedSkillResponse where
  toolCalls : List ParsedSkillToolCall

/-- `json_text`. -/
def jsonText (toText : Value → String) : Value → Option String
  | .string s => some s
  | .array items =>
    let out := String.join (items.map fun
      | .string s => s
      | .object o => ((Object.get o "text").bind Value.asStr).getD ""
      | _ => "")
    if out = "" then none else some out
  | .null => none
  | other => some (toText other)

/-- `RawUsage::into_usage`. -/
def RawUsage.intoUsage (u : RawUsage) : Option SkillTraceTokenUsage :=
  let totalTokens := u.totalTokens.getD (saturatingAdd u.promptTokens u.completionTokens)
  if u.promptTokens = 0 ∧ u.completionTokens = 0 ∧ totalTokens = 0 then none
  else some ⟨u.promptTokens, u.completionTokens, totalTokens⟩

/-- The call that is made of what was read. -/
def RawToolCall.parsed (call : RawToolCall) : ParsedSkillToolCall where
  id := call.id.getD ""
  name := (call.function.bind RawToolFunction.name).getD ""
  arguments := (call.function.bind RawToolFunction.arguments).getD ""

/-- The calls of the message, else those of the delta. -/
def ChatChoice.rawCalls (choice : ChatChoice) : Option (List RawToolCall) :=
  (choice.message.bind ChatMessagePayload.toolCalls).or
    (choice.delta.bind ChatMessagePayload.toolCalls)

/-- `parse_skill_response`. -/
def parseSkillResponse (serde : ResponseSerde) (body : ByteArray) : Option ParsedToolResponse := do
  let response ← serde.typed body
  let choice ← response.choices.head?
  let toolCalls := (choice.rawCalls.map fun calls => calls.map RawToolCall.parsed).getD []
  let hasToolCalls := !toolCalls.isEmpty || choice.finishReason == some "tool_calls"
  let textOf (payload : Option ChatMessagePayload) : Option String :=
    (payload.bind ChatMessagePayload.content).bind (jsonText serde.toText)
  return { toolCalls := if hasToolCalls then toolCalls else []
           finalText := (textOf choice.message).or (textOf choice.delta)
           usage := response.usage.bind RawUsage.intoUsage }

/-- The first choice of a response. -/
def firstChoice (v : Value) : Option Value := ((v.get "choices").bind asArray).bind List.head?

/-- `extract_raw_tool_calls`. -/
def extractRawToolCalls (serde : ResponseSerde) (body : ByteArray) : Option (List Value) := do
  let v ← serde.value body
  let choice ← firstChoice v
  let toolCalls ← ((choice.get "message").bind fun message => message.get "tool_calls").or
    ((choice.get "delta").bind fun delta => delta.get "tool_calls")
  asArray toolCalls

/-- The calls that some values say. -/
def callsOf (raw : List Value) : Option (List ParsedSkillToolCall) :=
  (raw.mapM readToolCall).map fun calls => calls.map RawToolCall.parsed

/-! ## Where the calls are -/

/-- Where the reader of structs finds the calls of a message. -/
def callsField : Option Value → Option (List Value)
  | some (.object m) => (Object.get m "tool_calls").bind asArray
  | some (.array l) => l[1]?.bind asArray
  | _ => none

/-- Both readings find the same calls: the body and its first choice are objects, and either the
message is one and has an array of calls, or it has no such member at all and the delta is an object
with the calls. -/
def ReadsAlike (serde : ResponseSerde) (body : ByteArray) : Prop :=
  ∃ o c, serde.value body = some (.object o) ∧ firstChoice (.object o) = some (.object c) ∧
    ((∃ m a, Object.get c "message" = some (.object m) ∧
        Object.get m "tool_calls" = some (.array a)) ∨
      ((∀ m, Object.get c "message" = some (.object m) → Object.get m "tool_calls" = none) ∧
        ∃ d a, Object.get c "delta" = some (.object d) ∧
        Object.get d "tool_calls" = some (.array a) ∧
          -- a message that is an array has calls of its own
          ∀ l a', Object.get c "message" = some (.array l) → l[1]? = some (.array a') →
            callsOf a' = callsOf a))

section Calls

variable {serde : ResponseSerde} {body : ByteArray} {parsed : ParsedToolResponse}

theorem fieldOf_object (o : Object) (i : ℕ) (name : String) (noKey tooShort : Option α)
    (read : Value → Option α) :
    fieldOf (.object o) i name noKey tooShort read = (Object.get o name).elim noKey read := by
  unfold fieldOf
  dsimp only
  cases Object.get o name with
  | none => rfl
  | some x => rfl

theorem fieldOf_array (l : List Value) (i : ℕ) (name : String) (noKey tooShort : Option α)
    (read : Value → Option α) :
    fieldOf (.array l) i name noKey tooShort read = l[i]?.elim tooShort read := by
  unfold fieldOf
  dsimp only
  cases l[i]? with
  | none => rfl
  | some x => rfl

/-- Calls that are read are an array; what is missing or `null` is no calls. -/
theorem calls_of_slot {slot : Option Value} {q : Option (List RawToolCall)}
    (h : slot.elim (some none) (optionOf (vecOf readToolCall)) = some q) :
    (slot.bind asArray).map (fun l => l.mapM readToolCall) = q.map some := by
  cases slot with
  | none =>
    obtain rfl := Option.some.inj h
    rfl
  | some t =>
    cases t with
    | null =>
      obtain rfl := Option.some.inj h
      rfl
    | array l =>
      obtain ⟨calls, hcalls, rfl⟩ := Option.map_eq_some_iff.mp h
      exact congrArg some hcalls
    | bool b => cases h
    | number n => cases h
    | string s => cases h
    | object o => cases h

theorem calls_of_message {x : Option Value} {p : Option ChatMessagePayload}
    (h : x.elim (some none) (optionOf readMessage) = some p) :
    (callsField x).map (fun l => l.mapM readToolCall) =
      (p.bind ChatMessagePayload.toolCalls).map some := by
  have hread : ∀ v payload, readMessage v = some payload →
      fieldOf v 1 "tool_calls" (some none) (some none) (optionOf (vecOf readToolCall)) =
        some payload.toolCalls := by
    intro v payload hv
    obtain ⟨_, -, hv⟩ := Option.bind_eq_some_iff.mp hv
    obtain ⟨content, -, hv⟩ := Option.bind_eq_some_iff.mp hv
    obtain ⟨toolCalls, hcalls, hv⟩ := Option.bind_eq_some_iff.mp hv
    obtain rfl := Option.some.inj hv
    exact hcalls
  cases x with
  | none =>
    obtain rfl := Option.some.inj h
    rfl
  | some v =>
    cases v with
    | null =>
      obtain rfl := Option.some.inj h
      rfl
    | object m =>
      obtain ⟨payload, hpayload, rfl⟩ := Option.map_eq_some_iff.mp h
      have hfield := hread _ payload hpayload
      rw [fieldOf_object] at hfield
      exact calls_of_slot hfield
    | array l =>
      obtain ⟨payload, hpayload, rfl⟩ := Option.map_eq_some_iff.mp h
      have hfield := hread _ payload hpayload
      rw [fieldOf_array] at hfield
      exact calls_of_slot hfield
    | bool b => cases h
    | number n => cases h
    | string s => cases h

theorem fields_of_choice {v : Value} {choice : ChatChoice} (h : readChoice v = some choice) :
    fieldOf v 1 "message" (some none) (some none) (optionOf readMessage) = some choice.message ∧
      fieldOf v 2 "delta" (some none) (some none) (optionOf readMessage) = some choice.delta := by
  obtain ⟨_, -, h⟩ := Option.bind_eq_some_iff.mp h
  obtain ⟨finishReason, -, h⟩ := Option.bind_eq_some_iff.mp h
  obtain ⟨message, hmessage, h⟩ := Option.bind_eq_some_iff.mp h
  obtain ⟨delta, hdelta, h⟩ := Option.bind_eq_some_iff.mp h
  obtain rfl := Option.some.inj h
  exact ⟨hmessage, hdelta⟩

/-- The calls of a choice that is an object. -/
theorem calls_of_choice {c : Object} {choice : ChatChoice}
    (h : readChoice (.object c) = some choice) :
    ((callsField (Object.get c "message")).or (callsField (Object.get c "delta"))).map
      (fun l => l.mapM readToolCall) = choice.rawCalls.map some := by
  obtain ⟨hmessage, hdelta⟩ := fields_of_choice h
  rw [fieldOf_object] at hmessage hdelta
  have hm := calls_of_message hmessage
  have hd := calls_of_message hdelta
  unfold ChatChoice.rawCalls
  rcases hx : callsField (Object.get c "message") with _ | a
  · rw [hx] at hm
    rw [Option.none_or, hd, Option.map_eq_none_iff.mp hm.symm, Option.none_or]
  · rw [hx] at hm
    obtain ⟨calls, hcalls, heq⟩ := Option.map_eq_some_iff.mp hm.symm
    rw [hcalls, Option.some_or, Option.some_or, Option.map_some, Option.map_some, heq]

theorem asArray_eq_some {v : Value} {l : List Value} : asArray v = some l ↔ v = .array l := by
  constructor
  · intro h
    cases v with
    | array l' => rw [Option.some.inj h]
    | null => cases h
    | bool b => cases h
    | number n => cases h
    | string s => cases h
    | object o => cases h
  · rintro rfl
    rfl

theorem asObject_eq_some {v : Value} {o : Object} : v.asObject = some o ↔ v = .object o := by
  constructor
  · intro h
    cases v with
    | object o' => rw [Option.some.inj h]
    | null => cases h
    | bool b => cases h
    | number n => cases h
    | string s => cases h
    | array l => cases h
  · rintro rfl
    rfl

theorem get_eq_some {v x : Value} {key : String} :
    v.get key = some x ↔ ∃ o, v = .object o ∧ Object.get o key = some x := by
  unfold Value.get
  rw [Option.bind_eq_some_iff]
  exact exists_congr fun o => and_congr_left fun _ => asObject_eq_some

/-- The first choice that is read is the reading of the first choice. -/
theorem read_firstChoice {v x : Value} {r : ChatCompletionResponse} {choice : ChatChoice}
    (hread : readResponse v = some r) (hchoice : r.choices.head? = some choice)
    (hx : firstChoice v = some x) : readChoice x = some choice := by
  obtain ⟨_, -, hread⟩ := Option.bind_eq_some_iff.mp hread
  obtain ⟨choices, hchoices, hread⟩ := Option.bind_eq_some_iff.mp hread
  obtain ⟨usage, -, hread⟩ := Option.bind_eq_some_iff.mp hread
  obtain rfl := Option.some.inj hread
  obtain ⟨l, hl, hhead⟩ := Option.bind_eq_some_iff.mp hx
  obtain ⟨t, ht, harray⟩ := Option.bind_eq_some_iff.mp hl
  obtain rfl := asArray_eq_some.mp harray
  obtain ⟨o, rfl, hget⟩ := get_eq_some.mp ht
  rw [fieldOf_object, hget] at hchoices
  cases l with
  | nil => cases hhead
  | cons y l =>
    obtain rfl := Option.some.inj hhead
    have hmapM : (y :: l).mapM readChoice = some choices := hchoices
    rw [List.mapM_cons] at hmapM
    obtain ⟨choice', hchoice', hmapM⟩ := Option.bind_eq_some_iff.mp hmapM
    obtain ⟨rest, -, hmapM⟩ := Option.bind_eq_some_iff.mp hmapM
    obtain rfl := Option.some.inj hmapM
    obtain rfl := Option.some.inj hchoice
    exact hchoice'

/-- What is parsed of a response that is read as a value whose first choice is an object. -/
theorem toolCalls_of_parse (hserde : serde.Coherent) {v : Value} {c : Object}
    (hparse : parseSkillResponse serde body = some parsed) (hv : serde.value body = some v)
    (hc : firstChoice v = some (.object c)) (hne : parsed.toolCalls ≠ []) :
    ∃ a, (callsField (Object.get c "message")).or (callsField (Object.get c "delta")) = some a ∧
      callsOf a = some parsed.toolCalls := by
  obtain ⟨r, hr, hparse⟩ := Option.bind_eq_some_iff.mp hparse
  obtain ⟨choice, hchoice, hparse⟩ := Option.bind_eq_some_iff.mp hparse
  obtain rfl := Option.some.inj hparse
  have hfirst : readChoice (.object c) = some choice :=
    read_firstChoice (hserde body v r hv hr) hchoice hc
  have hcalls := calls_of_choice hfirst
  dsimp only at hne ⊢
  rcases hraw : choice.rawCalls with _ | calls
  · rw [hraw] at hne
    exact absurd (by simp) hne
  · rw [hraw] at hcalls hne
    obtain ⟨a, ha, hmapM⟩ := Option.map_eq_some_iff.mp hcalls
    refine ⟨a, ha, ?_⟩
    unfold callsOf
    rw [hmapM]
    have hcons : calls ≠ [] := by
      rintro rfl
      exact hne (by simp)
    simp [hcons]

/-- The readings agree where the calls are in a message that is an object, and in the delta if the
message has none. -/
theorem calls_of_alike {c : Object} {a : List Value}
    (h : (∃ m, Object.get c "message" = some (.object m) ∧
      Object.get m "tool_calls" = some (.array a)) ∨
      ((∀ m, Object.get c "message" = some (.object m) → Object.get m "tool_calls" = none) ∧
        ∃ d, Object.get c "delta" = some (.object d) ∧
        Object.get d "tool_calls" = some (.array a))) :
    (((Object.get c "message").bind fun message => message.get "tool_calls").or
      ((Object.get c "delta").bind fun delta => delta.get "tool_calls")).bind asArray = some a := by
  rcases h with ⟨m, hm, ha⟩ | ⟨hnone, d, hd, ha⟩
  · have hfirst : (Value.object m).get "tool_calls" = some (.array a) := ha
    rw [hm, Option.bind_some, hfirst]
    rfl
  · have hmessage : ((Object.get c "message").bind
      fun message => message.get "tool_calls") = none := by
      rcases hm : Object.get c "message" with _ | v
      · rfl
      · cases v with
        | object m => exact hnone m hm
        | null => rfl
        | bool b => rfl
        | number n => rfl
        | string s => rfl
        | array l => rfl
    have hsecond : (Value.object d).get "tool_calls" = some (.array a) := ha
    rw [hmessage, Option.none_or, hd, Option.bind_some, hsecond]
    rfl

/-- What the extraction finds. -/
theorem extractRawToolCalls_eq_some {a : List Value} : extractRawToolCalls serde body = some a ↔
    ∃ o c, serde.value body = some (.object o) ∧ firstChoice (.object o) = some (.object c) ∧
      ((∃ m, Object.get c "message" = some (.object m) ∧
        Object.get m "tool_calls" = some (.array a)) ∨
        ((∀ m, Object.get c "message" = some (.object m) → Object.get m "tool_calls" = none) ∧
          ∃ d, Object.get c "delta" = some (.object d) ∧
            Object.get d "tool_calls" = some (.array a))) := by
  constructor
  · intro h
    obtain ⟨v, hv, h⟩ := Option.bind_eq_some_iff.mp h
    obtain ⟨cv, hc, h⟩ := Option.bind_eq_some_iff.mp h
    obtain ⟨t, ht, h⟩ := Option.bind_eq_some_iff.mp h
    obtain rfl := asArray_eq_some.mp h
    obtain ⟨o, rfl⟩ : ∃ o, v = .object o := by
      obtain ⟨l, hl, -⟩ := Option.bind_eq_some_iff.mp hc
      obtain ⟨x, hx, -⟩ := Option.bind_eq_some_iff.mp hl
      obtain ⟨o, ho, -⟩ := get_eq_some.mp hx
      exact ⟨o, ho⟩
    rcases Option.or_eq_some_iff.mp ht with hm | ⟨hnone, hd⟩
    · obtain ⟨mv, hm, hcalls⟩ := Option.bind_eq_some_iff.mp hm
      obtain ⟨c, rfl, hm⟩ := get_eq_some.mp hm
      obtain ⟨m, rfl, hcalls⟩ := get_eq_some.mp hcalls
      exact ⟨o, c, hv, hc, Or.inl ⟨m, hm, hcalls⟩⟩
    · obtain ⟨dv, hd, hcalls⟩ := Option.bind_eq_some_iff.mp hd
      obtain ⟨c, rfl, hd⟩ := get_eq_some.mp hd
      obtain ⟨d, rfl, hcalls⟩ := get_eq_some.mp hcalls
      refine ⟨o, c, hv, hc, Or.inr ⟨fun m hm => ?_, d, hd, hcalls⟩⟩
      have hget : (Value.object c).get "message" = some (.object m) := hm
      rw [hget] at hnone
      exact hnone
  · rintro ⟨o, c, hv, hc, h⟩
    have hcalls := calls_of_alike h
    unfold extractRawToolCalls
    rw [hv]
    show (firstChoice (.object o)).bind _ = _
    rw [hc]
    exact hcalls

theorem callsField_object {m : Object} {a : List Value}
    (h : Object.get m "tool_calls" = some (.array a)) : callsField (some (.object m)) = some a := by
  show (Object.get m "tool_calls").bind asArray = some a
  rw [h]
  rfl

theorem callsField_array {l a : List Value} (h : l[1]? = some (.array a)) :
    callsField (some (.array l)) = some a := by
  show l[1]?.bind asArray = some a
  rw [h]
  rfl

/-- **The two readings.** When tool calls are parsed, the same are extracted exactly if the response
reads alike. -/
theorem extract_iff (hserde : serde.Coherent) (hparse : parseSkillResponse serde body = some parsed)
    (hne : parsed.toolCalls ≠ []) :
    (∃ raw, extractRawToolCalls serde body = some raw ∧ callsOf raw = some parsed.toolCalls) ↔
      ReadsAlike serde body := by
  constructor
  · rintro ⟨a, hextract, hcalls⟩
    obtain ⟨o, c, hv, hc, ⟨m, hm, ha⟩ | ⟨hnone, d, hd, ha⟩⟩ :=
      extractRawToolCalls_eq_some.mp hextract
    · exact ⟨o, c, hv, hc, Or.inl ⟨m, a, hm, ha⟩⟩
    · refine ⟨o, c, hv, hc, Or.inr ⟨hnone, d, a, hd, ha, fun l a' hl ha' => ?_⟩⟩
      obtain ⟨b, hb, hparsed⟩ := toolCalls_of_parse hserde hparse hv hc hne
      have hfield : callsField (Object.get c "message") = some a' :=
        (congrArg callsField hl).trans (callsField_array ha')
      rw [hfield, Option.some_or] at hb
      obtain rfl := Option.some.inj hb
      exact hparsed.trans hcalls.symm
  · rintro ⟨o, c, hv, hc, halike⟩
    obtain ⟨b, hb, hparsed⟩ := toolCalls_of_parse hserde hparse hv hc hne
    rcases halike with ⟨m, a, hm, ha⟩ | ⟨hnone, d, a, hd, ha, hsame⟩
    · refine ⟨a, extractRawToolCalls_eq_some.mpr ⟨o, c, hv, hc, Or.inl ⟨m, hm, ha⟩⟩, ?_⟩
      have hfield : callsField (Object.get c "message") = some a :=
        (congrArg callsField hm).trans (callsField_object ha)
      rw [hfield, Option.some_or] at hb
      obtain rfl := Option.some.inj hb
      exact hparsed
    · refine ⟨a, extractRawToolCalls_eq_some.mpr ⟨o, c, hv, hc, Or.inr ⟨hnone, d, hd, ha⟩⟩, ?_⟩
      have hdelta : callsField (Object.get c "delta") = some a :=
        (congrArg callsField hd).trans (callsField_object ha)
      rw [hdelta] at hb
      rcases hfield : callsField (Object.get c "message") with _ | a'
      · rw [hfield, Option.none_or] at hb
        obtain rfl := Option.some.inj hb
        exact hparsed
      · -- only a message that is an array has calls then
        rw [hfield, Option.some_or] at hb
        obtain rfl := Option.some.inj hb
        rw [← hparsed]
        rcases hm : Object.get c "message" with _ | v
        · rw [hm] at hfield
          cases hfield
        · rw [hm] at hfield
          cases v with
          | object m =>
            have hempty : (Object.get m "tool_calls").bind asArray = some a' := hfield
            rw [hnone m hm] at hempty
            cases hempty
          | array l =>
            obtain ⟨t, ht, harray⟩ := Option.bind_eq_some_iff.mp hfield
            obtain rfl := asArray_eq_some.mp harray
            exact (hsame l a' hm ht).symm
          | null => cases hfield
          | bool b => cases hfield
          | number n => cases hfield
          | string s => cases hfield

end Calls

end Inferx.Skill
