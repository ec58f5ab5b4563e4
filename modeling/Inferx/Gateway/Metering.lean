import Mathlib.Tactic.Common
import Inferx.Lib.Lines
import Inferx.Lib.Map

/-!
# Token metering of the shared endpoints

A request to a shared endpoint goes to an external provider or to a function of the
platform. The answer is read on its way to the client, and the token counts of its
`usage` object become a row of `TokenUsageEvent`. A streamed answer is read line by
line and its last usage counts; another one is read as a whole. Which of the two it
is is told by the request.

JSON is read and written by functions that are given (`Serde`). What the upstream
answers is given by the gateway, for each request that it may be sent.
-/

namespace Inferx.Gateway

/-! ## JSON -/

/-- `serde_json::Number`. A float is its bits. -/
inductive Number where
  | posInt (n : UInt64)
  | negInt (n : Int64)
  | float (bits : UInt64)

/-- `serde_json::Value`. -/
inductive Value where
  | null
  | bool (b : Bool)
  | number (n : Number)
  | string (s : String)
  | array (l : List Value)
  | object (o : List (String × Value))

/-- `serde_json::Map`, one entry for each key. -/
abbrev Object : Type := List (String × Value)

namespace Object

/-- `Map::get`. -/
def get (o : Object) (key : String) : Option Value := (o.find? fun e => e.1 == key).map Prod.snd

/-- `Map::remove`, without the value. -/
def remove (o : Object) (key : String) : Object := o.filter fun e => e.1 != key

/-- `Map::insert`. -/
def insert (o : Object) (key : String) (v : Value) : Object := (key, v) :: o.remove key

end Object

namespace Value

/-- `Value::as_object`. -/
def asObject : Value → Option Object
  | .object o => some o
  | _ => none

/-- `Value::as_bool`. -/
def asBool : Value → Option Bool
  | .bool b => some b
  | _ => none

/-- `Value::as_str`. -/
def asStr : Value → Option String
  | .string s => some s
  | _ => none

/-- `Value::as_u64`. -/
def asU64 : Value → Option UInt64
  | .number (.posInt n) => some n
  | _ => none

/-- `Value::get`. -/
def get (v : Value) (key : String) : Option Value := v.asObject.bind fun o => o.get key

end Value

/-- How JSON is read and written. -/
structure Serde where
  /-- `serde_json::from_slice` -/
  fromSlice : ByteArray → Option Value
  /-- `serde_json::from_str` -/
  fromStr : List Char → Option Value
  /-- `serde_json::to_vec` -/
  toVec : Value → Option ByteArray

/-- `str::from_utf8`. -/
def fromUtf8 (b : ByteArray) : Option (List Char) := b.utf8Decode?.map Array.toList

/-- `Bytes::from` a text. -/
def bytesOf (text : List Char) : ByteArray := (String.ofList text).toUTF8

/-! ## Usage -/

/-- Token counts as they are billed. -/
structure UsageInfo where
  /-- of the prompt -/
  promptTokens : UInt32
  /-- of the answer -/
  completionTokens : UInt32
  /-- of the prompt, from the cache -/
  cachedTokens : UInt32
  /-- of both -/
  totalTokens : UInt32

/-- A count of an object, zero when it is not there or not a count. -/
def countOf (o : Object) (key : String) : UInt64 := ((o.get key).bind Value.asU64).getD 0

/-- The cached tokens of a usage object. -/
def cachedOf (usage : Object) : UInt64 :=
  ((((usage.get "prompt_tokens_details").bind Value.asObject).bind
    fun d => d.get "cached_tokens").bind
    Value.asU64).getD 0

/-- `parse_usage`. Each count is cast to 32 bits. -/
def parseUsage (usage : Object) : UsageInfo where
  promptTokens := (countOf usage "prompt_tokens").toUInt32
  completionTokens := (countOf usage "completion_tokens").toUInt32
  cachedTokens := (cachedOf usage).toUInt32
  totalTokens := (countOf usage "total_tokens").toUInt32

/-- The usage object of a JSON text. -/
def usageOf (serde : Serde) (text : List Char) : Option Object :=
  (((serde.fromStr text).bind Value.asObject).bind fun o => o.get "usage").bind Value.asObject

/-- What is known of a request when its answer comes. -/
structure TokenMeterCtx where
  /-- the gateway's id of the request -/
  gatewayRequestId : String
  /-- the client's -/
  clientRequestId : Option String
  /-- who pays -/
  callerTenant : String
  /-- the model -/
  modelSlug : String
  /-- the surface it came from -/
  source : String
  /-- when it came -/
  requestTs : ℤ

/-- A row of `TokenUsageEvent`. -/
structure TokenUsageEvent where
  /-- the gateway's id of the request -/
  gatewayRequestId : String
  /-- the client's -/
  clientRequestId : Option String
  /-- who pays -/
  callerTenant : String
  /-- the model -/
  modelSlug : String
  /-- the surface it came from -/
  source : String
  /-- tokens of the prompt -/
  promptTokens : ℤ
  /-- tokens of the answer -/
  completionTokens : ℤ
  /-- tokens of the prompt, from the cache -/
  cachedTokens : ℤ
  /-- when the request came -/
  ts : ℤ

/-- The event of a usage. -/
def usageEvent (ctx : TokenMeterCtx) (usage : UsageInfo) : TokenUsageEvent where
  gatewayRequestId := ctx.gatewayRequestId
  clientRequestId := ctx.clientRequestId
  callerTenant := ctx.callerTenant
  modelSlug := ctx.modelSlug
  source := ctx.source
  promptTokens := usage.promptTokens.toNat
  completionTokens := usage.completionTokens.toNat
  cachedTokens := usage.cachedTokens.toNat
  ts := ctx.requestTs

/-- `record_usage`: the event that is sent to the audit agent, if any. -/
def recordUsage (meter : Option TokenMeterCtx) (usage : UsageInfo) : Option TokenUsageEvent :=
  meter.map fun ctx => usageEvent ctx usage

/-! ## Answers -/

/-- A frame of a body. -/
inductive Frame where
  /-- bytes -/
  | data (b : ByteArray)
  /-- the connection is broken -/
  | error

/-- What the upstream answers. -/
structure Answer where
  /-- the HTTP status -/
  status : ℕ
  /-- the body -/
  frames : List Frame

/-- `StatusCode::is_success`. -/
def Answer.isSuccess (ans : Answer) : Bool := decide (200 ≤ ans.status ∧ ans.status < 300)

/-- The bytes of a body, unless a frame is broken. -/
def joined : List Frame → Option ByteArray
  | [] => some ByteArray.empty
  | .data b :: frames => (joined frames).map fun rest => b ++ rest
  | .error :: _ => none

/-- `BodyExt::collect`, empty if a frame is broken. -/
def collect (frames : List Frame) : ByteArray := (joined frames).getD ByteArray.empty

/-- A character of `White_Space`. -/
def isWhiteSpace (c : Char) : Bool :=
  let n := c.toNat
  (9 ≤ n && n ≤ 13) || n == 0x20 || n == 0x85 || n == 0xA0 || n == 0x1680 ||
    (0x2000 ≤ n && n ≤ 0x200A) || n == 0x2028 || n == 0x2029 || n == 0x202F || n == 0x205F || n == 0x3000

/-- `str::trim`. -/
def trim (l : List Char) : List Char :=
  ((l.dropWhile isWhiteSpace).reverse.dropWhile isWhiteSpace).reverse

/-- `str::strip_prefix`. -/
def strip (p l : List Char) : Option (List Char) :=
  if p.isPrefixOf l then some (l.drop p.length) else none

/-- A line without its carriage return. -/
def chomp (line : List Char) : List Char :=
  if line.getLast? = some '\r' then line.dropLast else line

/-- The data of a line of an event stream. -/
def dataOf (line : List Char) : Option (List Char) :=
  (strip "data: ".toList line).or (strip "data:".toList line)

/-- The data of a line that is written with a space. -/
theorem dataOf_data {text : List Char} (hne : text ≠ []) (hlast : text.getLast? ≠ some '\r') :
    dataOf (chomp ("data: ".toList ++ text)) = some text := by
  have hchomp : chomp ("data: ".toList ++ text) = "data: ".toList ++ text := by
    unfold chomp
    rw [List.getLast?_append_of_ne_nil _ hne, if_neg hlast]
  have hstrip : strip "data: ".toList ("data: ".toList ++ text) = some text := by
    unfold strip
    rw [if_pos (List.isPrefixOf_iff_prefix.mpr (List.prefix_append ..)), List.drop_left]
  unfold dataOf
  rw [hchomp, hstrip, Option.some_or]

/-- The usage object of a line of an event stream. -/
def lineUsage (serde : Serde) (line : List Char) : Option Object :=
  match dataOf (chomp line) with
  | none => none
  | some json => if trim json = "[DONE]".toList then none else usageOf serde json

/-- What is kept while an answer is streamed. -/
structure StreamState where
  /-- the last usage -/
  lastUsage : Option UsageInfo := none
  /-- what is not a line yet -/
  buf : List Char := []

/-- One line: note its usage, and pass it on unless it is filtered. -/
def onLine (serde : Serde) (shouldFilterUsage : Bool) (acc : Option UsageInfo × List Char)
    (line : List Char) :
    Option UsageInfo × List Char :=
  match lineUsage serde line with
  | some usage => (some (parseUsage usage), if shouldFilterUsage then acc.2
    else acc.2 ++ chomp line ++ ['\n'])
  | none => (acc.1, acc.2 ++ chomp line ++ ['\n'])

/-- One frame. Bytes that are no text are passed on and not read. -/
def onFrame (serde : Serde) (shouldFilterUsage : Bool) (st : StreamState) (b : ByteArray) :
    StreamState × ByteArray :=
  match fromUtf8 b with
  | some text =>
    let (lines, rest) := Lines.drain (st.buf ++ text)
    let (lastUsage, filteredLines) := lines.foldl (onLine serde shouldFilterUsage) (st.lastUsage, [])
    ({ lastUsage, buf := rest }, bytesOf filteredLines)
  | none => (st, b)

/-- The loop over the frames: what the client is sent, and the usage that is recorded
in the end. `stays` tells whether the client still takes the `n`-th piece. -/
def streamFrames (serde : Serde) (shouldFilterUsage : Bool) (stays : ℕ → Bool) :
    ℕ → StreamState → List Frame → List ByteArray × Option UsageInfo
  | _, st, [] => (if st.buf.isEmpty then [] else [bytesOf st.buf], st.lastUsage)
  | _, _, .error :: _ => ([], none)
  | n, st, .data b :: frames =>
    let sent := onFrame serde shouldFilterUsage st b
    if stays n then
      let rest := streamFrames serde shouldFilterUsage stays (n + 1) sent.1 frames
      (sent.2 :: rest.1, rest.2)
    else ([], none)

/-- What the client is sent. -/
structure Response where
  /-- the HTTP status -/
  status : ℕ
  /-- the body -/
  body : List ByteArray

/-- `process_usage_response`: the response, and the event that is sent to the audit
agent. -/
def processUsageResponse (serde : Serde) (stays : ℕ → Bool) (ans : Answer) (isStreaming shouldFilterUsage : Bool)
    (meter : Option TokenMeterCtx) : Response × Option TokenUsageEvent :=
  if isStreaming then
    let (body, usage) := streamFrames serde shouldFilterUsage stays 0 {} ans.frames
    ({ status := ans.status, body }, usage.bind (recordUsage meter))
  else
    let body := collect ans.frames
    let usage := (fromUtf8 body).bind (usageOf serde)
    ({ status := ans.status, body := [body] }, usage.bind fun u => recordUsage meter (parseUsage u))

/-! ## Requests -/

/-- A request. -/
structure Request where
  /-- its path -/
  path : String
  /-- its headers, names in lower case -/
  headers : List (String × List UInt8)
  /-- its body -/
  body : ByteArray

/-- `HeaderMap::get`, the first value. -/
def Request.header (req : Request) (name : String) : Option (List UInt8) :=
  (req.headers.find? fun e => e.1 == name).map Prod.snd

/-- `HeaderMap::insert`. -/
def insertHeader (headers : List (String × List UInt8)) (name : String) (v : List UInt8) :
    List (String × List UInt8) := (name, v) :: headers.filter fun e => e.1 != name

/-- A byte that `HeaderValue::to_str` lets through. -/
def isVisibleAscii (b : UInt8) : Bool := (32 ≤ b.toNat && b.toNat < 127) || b.toNat == 9

/-- `HeaderValue::to_str`. -/
def toStr (v : List UInt8) : Option String :=
  if v.all isVisibleAscii then some (String.ofList (v.map fun b => Char.ofNat b.toNat)) else none

/-- Different texts have different bytes. -/
theorem toUTF8_ne {a b : String} (h : a ≠ b) : a.toUTF8 ≠ b.toUTF8 :=
  fun h' => h (String.toByteArray_inj.mp h')

/-- `FUNCCALL_MAX_BODY_BYTES`, and the limit of `inject_usage_options`. -/
def maxBodyBytes : ℕ := 20 * 1024 * 1024

/-- Where a request comes from. -/
inductive SharedSource where
  | direct
  | openRouter
  deriving DecidableEq

/-- `SharedSource::as_str`. -/
def SharedSource.asStr : SharedSource → String
  | .direct => "direct"
  | .openRouter => "openrouter"

/-- An external endpoint, as far as the dispatch reads it. -/
structure ExternalEndpoint where
  /-- its name -/
  slug : String
  /-- the provider's name of the model -/
  upstreamModel : String
  /-- is it open to direct callers? -/
  published : Bool

/-- The gateway: its endpoints, and what each request is answered upstream. -/
structure HttpGateway where
  /-- `externalEndpointMgr.Get` -/
  externalEndpoint : String → Option ExternalEndpoint
  /-- is a function of the platform open to direct callers? -/
  published : String → Bool
  /-- `dispatch_failover`: endpoint, caller, path below it and body -/
  dispatchFailover : ExternalEndpoint → String → String → ByteArray → Answer
  /-- `funccall_dispatch_route` -/
  funccallDispatchRoute : Request → Except ℕ Answer

/-- `is_valid_slug`. -/
def isValidSlug (slug : String) : Bool :=
  !slug.isEmpty && slug.toList.all fun c =>
    (c.isAlphanum && c.toNat < 128) || c == '-' || c == '_' || c == '.'

/-- `str::strip_prefix`, the text itself if it does not start so. -/
def stripOr (p s : String) : String := (strip p.toList s.toList).elim s String.ofList

/-- `external_sub_path`. -/
def externalSubPath (path : String) : String := stripOr "/v1" (stripOr "/endpoints" path)

/-- The `stream` flag of a body. -/
def streamFlag (v : Value) : Bool := ((v.get "stream").bind Value.asBool).getD false

/-- The `stream_options.include_usage` flag of a body. -/
def usageFlag (v : Value) : Bool :=
  (((v.get "stream_options").bind fun so => so.get "include_usage").bind Value.asBool).getD false

/-- Ask for a usage object, unless `stream_options` is there and no object. -/
def injectUsage (o : Object) : Object :=
  match (o.get "stream_options").getD (.object []) with
  | .object so => o.insert "stream_options" (.object (Object.insert so "include_usage" (.bool true)))
  | _ => o

/-- The value, or a status. -/
def orStatus {α : Type} (status : ℕ) : Option α → Except ℕ α
  | none => .error status
  | some a => .ok a

/-- `inject_usage_options`: the request that is sent on, whether it is streamed, and
whether the caller asked for the usage. -/
def injectUsageOptions (serde : Serde) (req : Request) : Except ℕ (Request × Bool × Bool) :=
  if maxBodyBytes < req.body.size then .error 400
  else
    match serde.fromSlice req.body with
    | none => .ok (req, false, true)
    | some v =>
      let isStreaming := streamFlag v
      let usageEnabled := if isStreaming then usageFlag v else true
      if isStreaming && !usageEnabled then
        let v' := (v.asObject.map fun o => Value.object (injectUsage o)).getD v
        let body := (serde.toVec v').getD req.body
        .ok ({ req with
          headers := insertHeader req.headers "content-length" (toString body.size).toUTF8.toList
          body }, isStreaming, usageEnabled)
      else .ok (req, isStreaming, usageEnabled)

/-- What comes of a request before its answer is read. -/
inductive Routed where
  /-- the gateway answers itself -/
  | refused (status : ℕ) (text : String)
  /-- the answer is passed on as it is -/
  | passed (ans : Answer)
  /-- the answer is read for its usage -/
  | metered (ans : Answer) (isStreaming shouldFilterUsage : Bool) (meter : TokenMeterCtx)

/-- What a dispatch draws: an id and the time. -/
structure DispatchEnv where
  /-- `Uuid::new_v4` -/
  uuid : String
  /-- `Utc::now` -/
  requestTs : ℤ

variable (serde : Serde) (gw : HttpGateway) (env : DispatchEnv)

/-- The branch of `shared_endpoint_dispatch` for an external endpoint. -/
def routeExternal (ext : ExternalEndpoint) (req : Request) (o : Object) (callerTenant : String)
    (source : SharedSource) (meter : TokenMeterCtx) : Except ℕ Routed :=
  if source = .direct ∧ ext.published = false then
    .ok (.refused 404 "service failure: endpoint not found")
  else do
    let isStreaming := streamFlag (.object o)
    let usageRequested := if isStreaming then usageFlag (.object o) else true
    let o := if isStreaming && !usageRequested then injectUsage o else o
    let body ← orStatus 500 (serde.toVec (.object (o.insert "model" (.string ext.upstreamModel))))
    let ans := gw.dispatchFailover ext callerTenant (externalSubPath req.path) body
    if ans.isSuccess then return .metered ans isStreaming (!usageRequested) meter
    else return .passed ans

/-- The branch of `shared_endpoint_dispatch` for a function of the platform. -/
def routeFunccall (req : Request) (o : Object) (modelName : String) (source : SharedSource)
    (meter : TokenMeterCtx) : Except ℕ Routed :=
  if source = .direct ∧ gw.published modelName = false then
    .ok (.refused 404 "service failure: endpoint not found")
  else do
    let body ← orStatus 500 (serde.toVec (.object o))
    let headers := req.headers.filter fun e => e.1 != "content-length"
    let headers := insertHeader headers "x-inferx-model" modelName.toUTF8.toList
    let headers := insertHeader headers "x-inferx-model-call" "true".toUTF8.toList
    let remainPath := stripOr "/endpoints" req.path
    let path := s!"/funccall/inferx/endpoint/{modelName}{remainPath}"
    let (newReq, isStreaming, usageRequested) ← injectUsageOptions serde { path, headers, body }
    let ans ← gw.funccallDispatchRoute newReq
    return .metered ans isStreaming (!usageRequested) meter

/-- `shared_endpoint_dispatch` up to the reading of the answer. -/
def sharedEndpointRoute (req : Request) (callerTenant : String) (source : SharedSource) :
    Except ℕ Routed := do
  let body ← orStatus 400 (if maxBodyBytes < req.body.size then none else some req.body)
  let v ← orStatus 400 (serde.fromSlice body)
  let o ← orStatus 400 v.asObject
  let modelName ← orStatus 400 ((o.get "model").bind Value.asStr)
  let meter : TokenMeterCtx :=
    { gatewayRequestId := env.uuid
      clientRequestId := (req.header "x-request-id").bind toStr
      callerTenant
      modelSlug := modelName
      source := source.asStr
      requestTs := env.requestTs }
  if isValidSlug modelName = false then
    return .refused 400 "service failure: invalid model name"
  else
    match gw.externalEndpoint modelName with
    | some ext => routeExternal serde gw ext req (o.remove "model") callerTenant source meter
    | none => routeFunccall serde gw req (o.remove "model") modelName source meter

/-- `shared_endpoint_dispatch`, and the event that is sent to the audit agent. -/
def sharedEndpointDispatch (stays : ℕ → Bool) (req : Request) (callerTenant : String)
    (source : SharedSource) :
    Except ℕ (Response × Option TokenUsageEvent) := do
  match ← sharedEndpointRoute serde gw env req callerTenant source with
  | .refused status text => return ({ status, body := [text.toUTF8] }, none)
  | .passed ans => return ({ status := ans.status, body := [collect ans.frames] }, none)
  | .metered ans isStreaming shouldFilterUsage meter =>
    return processUsageResponse serde stays ans isStreaming shouldFilterUsage (some meter)

/-! ## The database -/

/-- A text in a column of type `VARCHAR(n)`. Spaces beyond the length are cut. -/
def varchar (n : ℕ) (s : String) : Option String :=
  if s.toList.length ≤ n then some s
  else if (s.toList.drop n).all (· == ' ') then some (String.ofList (s.toList.take n))
  else none

/-- The rows of `TokenUsageEvent`, by their key. -/
abbrev Table : Type := BTreeMap String TokenUsageEvent

/-- The text of a failed insert. -/
def tooLong (n : ℕ) : String := s!"value too long for type character varying({n})"

/-- A text, or the failure of the insert. -/
def column (n : ℕ) (s : String) : Except String String :=
  match varchar n s with
  | none => .error (tooLong n)
  | some s => .ok s

/-- A text that may be missing, or the failure of the insert. -/
def columnOpt (n : ℕ) : Option String → Except String (Option String)
  | none => .ok none
  | some s => (column n s).map some

/-- `SqlAudit::CreateTokenUsageEvent`. -/
def createTokenUsageEvent (t : Table) (event : TokenUsageEvent) : Except String Table := do
  let gatewayRequestId ← column 128 event.gatewayRequestId
  let clientRequestId ← columnOpt 128 event.clientRequestId
  let source ← column 16 event.source
  if t[gatewayRequestId]?.isSome then return t
  else return t.insert gatewayRequestId { event with gatewayRequestId, clientRequestId, source }

/-- The audit agent: is billing enabled, and is its queue full? -/
structure AuditEnv where
  /-- `TokenUsageAuditAgent::Enable` -/
  enable : Bool := true
  /-- is the queue full? -/
  full : Bool := false

/-- `TokenUsageAuditAgent::Audit` and `Process`: the table after the event has been
handled. A row that cannot be stored is logged and forgotten. -/
def audit (a : AuditEnv) (t : Table) : Option TokenUsageEvent → Table
  | none => t
  | some event =>
    if a.enable && !a.full then
      match createTokenUsageEvent t event with
      | .ok t' => t'
      | .error _ => t
    else t

end Inferx.Gateway
