import Inferx.Lib.Lines
import Inferx.Lib.Proc
import Inferx.Lib.Strs

/-!
# Streams of skill traces

A traced skill call answers with an event stream: one event for each step of the call
tree, comments in between, the final body, and `[DONE]`. The gateway reads such streams
in two places, for the children of a skill and for its own tool calls. Both cut the
text into lines and push them to the same parser, and differ in what they do with a
message and in whether they stop at the end.
-/

namespace Inferx.Skill

open Inferx.Lines

/-- `SkillTraceEventPayload`. -/
structure SkillTraceEventPayload where
  eventType : String
  callId : String := ""
  parentCallId : Option String := none
  depth : ℕ := 0
  skill : String
  tsMs : ℤ := 0
  elapsedMs : Option ℕ := none
  phase : Option String := none
  query : Option String := none
  output : Option String := none
  resultCode : Option String := none
  failReason : Option String := none
  promptTokens : Option ℕ := none
  completionTokens : Option ℕ := none
  totalTokens : Option ℕ := none
  deriving DecidableEq, Repr

/-- The JSON reader and writer, and the reader of bytes. -/
structure Codec (Value : Type) where
  /-- `serde_json::to_string` of a payload -/
  toString : SkillTraceEventPayload → List Char
  /-- `serde_json::from_str` to a payload -/
  fromStr : List Char → Option SkillTraceEventPayload
  /-- `serde_json::from_str` to a value -/
  value : List Char → Option Value
  /-- `String::from_utf8_lossy` -/
  lossy : ByteArray → List Char

/-! ## The parser of lines -/

/-- `str::trim`. -/
def trim (s : List Char) : List Char := (s.dropWhile Strs.isWhiteSpace).rdropWhile Strs.isWhiteSpace

/-- `str::strip_prefix`. -/
def strip (p line : List Char) : Option (List Char) := line.dropPrefix? p

structure SseParser where
  pendingEvent : Option (List Char) := none
  dataLines : List (List Char) := []
  deriving DecidableEq, Repr

inductive SseMessage where
  | event (event : Option (List Char)) (data : List Char)
  | comment (text : List Char)
  deriving DecidableEq, Repr

/-- `join("\n")`. -/
def joinLines : List (List Char) → List Char
  | [] => []
  | [l] => l
  | l :: ls => l ++ '\n' :: joinLines ls

/-- `push_line`. -/
def SseParser.pushLine (p : SseParser) (line : List Char) : SseParser × Option SseMessage :=
  match strip [':'] line with
  | some rest => (p, some (.comment (trim rest)))
  | none =>
    if line = [] then
      if joinLines p.dataLines = [] ∧ p.pendingEvent = none then ({}, none)
      else ({}, some (.event p.pendingEvent (joinLines p.dataLines)))
    else
      match strip "event:".toList line with
      | some rest => ({ p with pendingEvent := some (trim rest) }, none)
      | none =>
        match strip "data:".toList line with
        | some rest => ({ p with dataLines := p.dataLines ++ [trim rest] }, none)
        | none => (p, none)

/-! ## Readers -/

/-- What a reader does with a message, and when it stops reading. -/
structure Reader (S E : Type) where
  handle : S → SseMessage → Except E S
  stop : S → Bool

section Reader

variable {S E : Type} {Value : Type} (codec : Codec Value) (R : Reader S E)

/-- A line without the carriage return at its end. -/
def chomp (line : List Char) : List Char :=
  if line.getLast? = some '\r' then line.dropLast else line

def Reader.onLine (x : SseParser × S) (line : List Char) : Except E (SseParser × S) :=
  match (x.1.pushLine line).2 with
  | none => .ok ((x.1.pushLine line).1, x.2)
  | some message => do
    let s ← R.handle x.2 message
    return ((x.1.pushLine line).1, s)

/-- The lines of a buffer, up to the one at which the reader stops. -/
def Reader.readLines (x : SseParser × S) :
    List (List Char) → Except E ((SseParser × S) × List (List Char))
  | [] => .ok (x, [])
  | line :: lines => do
    let x ← R.onLine x (chomp line)
    if R.stop x.2 then return (x, lines) else Reader.readLines x lines

/-- The loop over the chunks; what is left in the buffer in the end. -/
def Reader.readChunks (x : SseParser × S) (buf : List Char) :
    List ByteArray → Except E ((SseParser × S) × List Char)
  | [] => .ok (x, buf)
  | chunk :: chunks => do
    let (lines, rest) := drain (buf ++ codec.lossy chunk)
    let (x, left) ← R.readLines x lines
    if R.stop x.2 then return (x, left.flatMap (· ++ ['\n']) ++ rest)
    else Reader.readChunks x rest chunks

end Reader

/-- The data that ends a stream. -/
def done : List Char := "[DONE]".toList

/-! ## The reader of a child's trace -/

section Child

variable {Value : Type} (codec : Codec Value)

/-- Why reading a child's trace fails. -/
inductive ChildTraceReadError where
  | invalidPayload | endedBeforeDone
  deriving DecidableEq, Repr

/-- What is read of a child's trace; the events are the ones that are passed on to
`forward_child_trace_event`, and `terminal` is the one that gives the result code, the fail reason
and the usage of the child. -/
structure ChildTraceRead where
  skillResult : Option (List Char) := none
  terminal : Option SkillTraceEventPayload := none
  events : List SkillTraceEventPayload := []
  sawDone : Bool := false
  deriving DecidableEq

def childHandle (st : ChildTraceRead) : SseMessage → Except ChildTraceReadError ChildTraceRead
  | .comment _ => .ok st
  | .event event data =>
    if data = done then .ok { st with sawDone := true }
    else if event = some "skill_trace".toList then
      match codec.fromStr data with
      | none => .error .invalidPayload
      | some payload =>
        .ok { st with
          events := st.events ++ [payload]
          terminal :=
            if payload.depth = 1 ∧ payload.eventType = "call_finish" then some payload
            else st.terminal }
    else if event = some "skill_result".toList then .ok { st with skillResult := some data }
    else .ok st

def childReader : Reader ChildTraceRead ChildTraceReadError := ⟨childHandle codec, fun st => st.sawDone⟩

/-- `read_child_trace_sse`, of a stream that does not break. -/
def readChildTraceSse (chunks : List ByteArray) : Except ChildTraceReadError ChildTraceRead := do
  let (x, buf) ← (childReader codec).readChunks codec ({}, {}) [] chunks
  let x ←
    if buf = [] then pure x
    else (childReader codec).onLine x (buf.rdropWhile (· == '\r'))
  if x.2.sawDone then return x.2 else .error .endedBeforeDone

end Child

/-! ## The reader of a tool call -/

section Tool

variable {Value : Type} (codec : Codec Value)

/-- Why a tool call fails. -/
inductive CallToolError where
  | invalidPayload | invalidResult | endedBeforeDone
  | failed (message : String)
  deriving DecidableEq, Repr

/-- What is read of a tool call; the events are the ones that the client is notified of. -/
structure ToolRead (Value : Type) where
  finalResult : Option Value := none
  terminalFailure : Option String := none
  events : List SkillTraceEventPayload := []
  sawDone : Bool := false

def formatSkillFailReason : Option String → String
  | some "timeout" => "skill timed out"
  | some "transport_error" => "skill transport error"
  | some "invalid_response" => "skill returned invalid response"
  | some "max_depth" => "skill exceeded max chain depth"
  | _ => "skill failed"

def updateTerminalFailure (event : SkillTraceEventPayload) (terminalFailure : Option String) :
    Option String :=
  if event.depth = 1 ∧ event.eventType = "call_finish" ∧ event.resultCode = some "fail" then
    some s!"{event.skill}: {formatSkillFailReason event.failReason}"
  else terminalFailure

/-- `handle_sse_message`, for a client that stays connected. -/
def handleSseMessage (st : ToolRead Value) : SseMessage → Except CallToolError (ToolRead Value)
  | .comment _ => .ok st
  | .event event data =>
    if data = done then .ok { st with sawDone := true }
    else if event = some "skill_trace".toList then
      match codec.fromStr data with
      | none => .error .invalidPayload
      | some payload =>
        .ok { st with
          events := st.events ++ [payload]
          terminalFailure := updateTerminalFailure payload st.terminalFailure }
    else if event = some "skill_result".toList then
      match codec.value data with
      | none => .error .invalidResult
      | some json => .ok { st with finalResult := some json }
    else .ok st

def toolReader : Reader (ToolRead Value) CallToolError := ⟨handleSseMessage codec, fun _ => false⟩

def resolveSkillTraceOutcome (st : ToolRead Value) : Except CallToolError Value :=
  if st.sawDone = false ∧ st.finalResult.isNone then .error .endedBeforeDone
  else
    match st.finalResult with
    | some v => .ok v
    | none => .error (.failed (st.terminalFailure.getD "trace stream missing skill_result"))

/-- The part of `call_tool` that reads the stream. -/
def callTool (chunks : List ByteArray) :
    Except CallToolError (List SkillTraceEventPayload × Value) := do
  let (x, buf) ← (toolReader codec).readChunks codec ({}, {}) [] chunks
  let x ←
    if buf = [] then pure x
    else do
      let x ← (toolReader codec).onLine x (chomp buf)
      (toolReader codec).onLine x []
  let v ← resolveSkillTraceOutcome x.2
  return (x.2.events, v)

end Tool

/-! ## The writer -/

section Writer

variable {Value : Type} (codec : Codec Value)

/-- `emit_trace_event`. -/
def emitTraceEvent (payload : SkillTraceEventPayload) : List Char :=
  "event: skill_trace\ndata: ".toList ++ codec.toString payload ++ "\n\n".toList

/-- `emit_trace_comment`. -/
def emitTraceComment (comment : List Char) : List Char := ": ".toList ++ comment ++ "\n\n".toList

/-- `emit_trace_skill_result`, of a body that is text. -/
def emitTraceSkillResult (data : List Char) : List Char :=
  "event: skill_result\ndata: ".toList ++ data ++ "\n\n".toList

/-- `emit_trace_done`. -/
def emitTraceDone : List Char := "data: [DONE]\n\n".toList

/-- What is written before the result; the only comment is the heartbeat. -/
inductive TraceItem where
  | event (payload : SkillTraceEventPayload)
  | heartbeat

def TraceItem.text : TraceItem → List Char
  | .event payload => emitTraceEvent codec payload
  | .heartbeat => emitTraceComment "heartbeat".toList

/-- A stream of trace events with its final body. -/
def traceStream (items : List TraceItem) (body : List Char) : List Char :=
  items.flatMap (TraceItem.text codec) ++ emitTraceSkillResult body ++ emitTraceDone

/-- The events of a stream. -/
def payloads (items : List TraceItem) : List SkillTraceEventPayload :=
  items.filterMap fun
    | .event payload => some payload
    | .heartbeat => none

end Writer

end Inferx.Skill
