import Inferx.Gateway.Auth
import Inferx.Text

/-!
# Debug rights of a skill call

`SkillCall` serves clients and the gateway's own calls to child skills, and
tells the two apart by a request header. For a child the normalization of the
request leaves out three checks: verbose trace without the debug privilege,
tools given by the client, and the depth of the chain, which is then read from a
second header. `skill_rights_iff` says which requests of a client without the
privilege keep the rules all the same. What a trace shows is decided where its
events are emitted, by the level of the normalized call.

The parts of the body that only pass through are the parameter `B`.
-/

namespace Inferx.Gateway

/-- The request headers, by name; only values that are text. -/
abbrev Headers := String → Option String

def skillChainChildHeader : String := "X-Inferx-Skill-Chain-Child"
def skillChainDepthHeader : String := "X-Chain-Depth"

/-- The child header is there with the exact value `1`. -/
def extractIsChildRequest (headers : Headers) : Bool := headers skillChainChildHeader == some "1"

/-- `str::parse::<u32>`: an optional plus sign, digits, and the value in range. -/
def parseU32 (s : String) : Option ℕ :=
  let digits := match s.toList with
    | '+' :: ds => ds
    | ds => ds
  (parseDigits digits).bind fun n => if n < 2 ^ 32 then some n else none

/-- `skill_trace` as it was sent. -/
inductive SkillTraceField where
  | absent
  /-- a number, with its value when it is a `u64` -/
  | number (n : Option ℕ)
  /-- `null` or any other value -/
  | other
  deriving DecidableEq, Repr

/-- `tools` as it was sent; `null` counts as absent. -/
inductive ToolsField where
  | absent
  | array (empty : Bool)
  | other
  deriving DecidableEq, Repr

inductive SkillTraceLevel where
  | none | basic | verbose
  deriving DecidableEq, Repr

inductive SkillResponseMode where
  | normal | sseTrace
  deriving DecidableEq, Repr

/-- The body of a call. -/
structure SkillWireRequest (B : Type) where
  skillTrace : SkillTraceField
  tools : ToolsField
  /-- messages, mocks and parameters for the model -/
  rest : B

/-- What the gateway adds to the body. -/
structure SkillContext where
  isChildRequest : Bool
  childChainDepth : Option ℕ
  isDebugAuthorized : Bool

/-- Why a call is turned down. -/
inductive NormalizationError where
  /-- with a status and a message -/
  | http (status : ℕ) (msg : String)
  /-- with a completion that says so -/
  | completionError
  deriving DecidableEq, Repr

/-- The call as it is run. -/
structure NormalizedSkillCall (B : Type) where
  effectiveTrace : SkillTraceLevel
  responseMode : SkillResponseMode
  currentDepth : ℕ
  rest : B

variable {B : Type}

/-- The level a `skill_trace` value stands for. -/
def traceLevel : SkillTraceField → Option SkillTraceLevel
  | .absent => some .none
  | .number (some 0) => some .none
  | .number (some 1) => some .basic
  | .number (some 2) => some .verbose
  | _ => none

/-- The checks of tools given by the client, of root requests only. -/
def rejectTools : ToolsField → Except NormalizationError Unit
  | .array false => .error (.http 400 "skill endpoint does not accept client-provided tools")
  | .array true => .ok ()
  | .absent => .ok ()
  | .other => .error (.http 400 "service failure: invalid request body")

/-- The depth a chain starts at. -/
def startDepth (ctx : SkillContext) : Except NormalizationError ℕ :=
  if ctx.isChildRequest then
    match ctx.childChainDepth with
    | none => .error .completionError
    | some 0 => .error .completionError
    | some d => .ok d
  else .ok 1

def responseModeOf : SkillTraceLevel → SkillResponseMode
  | .none => .normal
  | .basic | .verbose => .sseTrace

def normalizeSkillCall (wire : SkillWireRequest B) (ctx : SkillContext) :
    Except NormalizationError (NormalizedSkillCall B) := do
  let effectiveTrace ← (traceLevel wire.skillTrace).elim
    (.error (.http 400 "service failure: invalid skill_trace value")) .ok
  -- verbose trace requires debug privilege on the root request only
  if effectiveTrace == .verbose && !ctx.isChildRequest && !ctx.isDebugAuthorized then
    throw (.http 403 "service failure: verbose trace requires debug privilege")
  let currentDepth ← startDepth ctx
  if !ctx.isChildRequest then
    rejectTools wire.tools
  return { effectiveTrace := effectiveTrace, responseMode := responseModeOf effectiveTrace,
           currentDepth := currentDepth, rest := wire.rest }

/-- The context that `SkillCall` makes for a request to the skill of a namespace. -/
def skillContext (token : AccessToken) (ownerTenant nameSpace : String) (headers : Headers) :
    SkillContext where
  isChildRequest := extractIsChildRequest headers
  childChainDepth :=
    if extractIsChildRequest headers then (headers skillChainDepthHeader).bind parseU32 else none
  isDebugAuthorized := token.isNamespaceAdmin ownerTenant nameSpace || token.isInferxAdmin

/-- `SkillCall` up to the start of the chain. -/
def skillCall (token : AccessToken) (ownerTenant nameSpace : String) (headers : Headers)
    (wire : SkillWireRequest B) : Except NormalizationError (NormalizedSkillCall B) :=
  normalizeSkillCall wire (skillContext token ownerTenant nameSpace headers)

/-! ## The trace -/

/-- An event of the trace, as far as it shows texts of calls. -/
structure TraceEvent where
  eventType : String
  depth : ℕ
  skill : String
  query : Option String
  output : Option String
  deriving DecidableEq, Repr

/-- `emit_trace_event`: texts only with `include_content`. -/
def emitTraceEvent (includeContent : Bool) (e : TraceEvent) : TraceEvent :=
  if includeContent then e else { e with query := none, output := none }

/-- The stream of a call: each event that the run of the chain, or a child whose
events are passed on, wants to emit. -/
def NormalizedSkillCall.trace (n : NormalizedSkillCall B) (events : List TraceEvent) :
    List TraceEvent :=
  match n.responseMode with
  | .normal => []
  | .sseTrace => events.map (emitTraceEvent (n.effectiveTrace == .verbose))

/-- No text of any call is shown, whatever the chain does. -/
def NormalizedSkillCall.ShowsNoText (n : NormalizedSkillCall B) : Prop :=
  ∀ events, ∀ e ∈ n.trace events, e.query = none ∧ e.output = none

/-- **Texts are shown on the verbose level only.** -/
theorem showsNoText_iff {n : NormalizedSkillCall B}
    (hmode : n.responseMode = responseModeOf n.effectiveTrace) :
    n.ShowsNoText ↔ n.effectiveTrace ≠ .verbose := by
  constructor
  · intro h hverbose
    have hin := h [⟨"call_start", 1, "", some "q", none⟩] ⟨"call_start", 1, "", some "q", none⟩ (by
      rw [NormalizedSkillCall.trace, hmode, hverbose]
      exact List.mem_cons_self ..)
    exact absurd hin.1 (by decide)
  · intro hne events e he
    unfold NormalizedSkillCall.trace at he
    rw [hmode] at he
    cases hlevel : n.effectiveTrace with
    | verbose => exact absurd hlevel hne
    | none =>
      rw [hlevel] at he
      cases he
    | basic =>
      rw [hlevel] at he
      obtain ⟨e', -, rfl⟩ := List.mem_map.mp he
      exact ⟨rfl, rfl⟩

/-! ## A client without the privilege -/

/-- The same request without the two headers. -/
def Headers.without (headers : Headers) : Headers := fun name =>
  if name = skillChainChildHeader ∨ name = skillChainDepthHeader then none else headers name

/-- The rules for a client without the debug privilege: no texts, no tools of its
own, depth 1, and nothing that the request without the headers would not get. -/
structure KeepsRules (token : AccessToken) (ownerTenant nameSpace : String) (headers : Headers)
    (wire : SkillWireRequest B) : Prop where
  trace : ∀ n, skillCall token ownerTenant nameSpace headers wire = .ok n → n.ShowsNoText
  tools : wire.tools ≠ .absent → wire.tools ≠ .array true →
    ∃ e, skillCall token ownerTenant nameSpace headers wire = .error e
  depth : ∀ n, skillCall token ownerTenant nameSpace headers wire = .ok n → n.currentDepth = 1
  headers : ∀ n, skillCall token ownerTenant nameSpace headers wire = .ok n →
    skillCall token ownerTenant nameSpace headers.without wire = .ok n

/-- The requests that keep the rules: not marked as a child, or turned down for
their depth or their trace level, or asking for nothing a client may not have. -/
def Harmless (headers : Headers) (wire : SkillWireRequest B) : Prop :=
  headers skillChainChildHeader ≠ some "1" ∨
    (∀ d, (headers skillChainDepthHeader).bind parseU32 = some d → d = 0) ∨
    traceLevel wire.skillTrace = none ∨
    ((headers skillChainDepthHeader).bind parseU32 = some 1 ∧
      traceLevel wire.skillTrace ≠ some .verbose ∧
      (wire.tools = .absent ∨ wire.tools = .array true))

section Normalized

variable {wire : SkillWireRequest B} {ctx : SkillContext} {n : NormalizedSkillCall B}

/-- What a request of a client gets that is not marked as a child. -/
theorem normalize_root (hchild : ctx.isChildRequest = false) :
    normalizeSkillCall wire ctx = .ok n ↔ ∃ level, traceLevel wire.skillTrace = some level ∧
      (level = .verbose → ctx.isDebugAuthorized = true) ∧
      (wire.tools = .absent ∨ wire.tools = .array true) ∧
      n = ⟨level, responseModeOf level, 1, wire.rest⟩ := by
  unfold normalizeSkillCall startDepth
  rcases hlevel : traceLevel wire.skillTrace with _ | level
  · simp only [Option.elim, reduceCtorEq, false_and, exists_false, iff_false]
    intro h
    cases h
  · simp only [Option.elim, hchild, Bool.not_false, Bool.and_true, Bool.false_eq_true, if_false,
      if_true, Option.some.injEq, exists_eq_left']
    by_cases hv : level = .verbose ∧ ctx.isDebugAuthorized = false
    · obtain ⟨rfl, hd⟩ := hv
      simp only [hd, Bool.not_false, Bool.false_eq_true, imp_false, not_true_eq_false, false_and,
        iff_false]
      intro h
      cases h
    · have hcond : (level == SkillTraceLevel.verbose && !ctx.isDebugAuthorized) = false := by
        cases hd : ctx.isDebugAuthorized with
        | true => simp
        | false =>
          have : level ≠ .verbose := fun h => hv ⟨h, hd⟩
          simp [this]
      have himp : level = .verbose → ctx.isDebugAuthorized = true := fun h => by
        cases hd : ctx.isDebugAuthorized with
        | true => rfl
        | false => exact absurd ⟨h, hd⟩ hv
      cases htools : wire.tools with
      | absent =>
        refine ⟨fun h => ⟨himp, .inl rfl, ?_⟩, fun h => ?_⟩
        · simpa [bind, Except.bind, hcond, rejectTools, eq_comm, pure, Except.pure] using h
        · rw [h.2.2]
          simp [bind, Except.bind, hcond, rejectTools, pure, Except.pure]
      | array empty =>
        cases empty with
        | true =>
          refine ⟨fun h => ⟨himp, .inr rfl, ?_⟩, fun h => ?_⟩
          · simpa [bind, Except.bind, hcond, rejectTools, eq_comm, pure, Except.pure] using h
          · rw [h.2.2]
            simp [bind, Except.bind, hcond, rejectTools, pure, Except.pure]
        | false => simp [bind, Except.bind, hcond, rejectTools]
      | other => simp [bind, Except.bind, hcond, rejectTools]

/-- What a request gets that is marked as a child. -/
theorem normalize_child (hchild : ctx.isChildRequest = true) :
    normalizeSkillCall wire ctx = .ok n ↔ ∃ level, traceLevel wire.skillTrace = some level ∧
      ∃ d, ctx.childChainDepth = some d ∧ d ≠ 0 ∧
        n = ⟨level, responseModeOf level, d, wire.rest⟩ := by
  unfold normalizeSkillCall startDepth
  rcases hlevel : traceLevel wire.skillTrace with _ | level
  · simp only [Option.elim, reduceCtorEq, false_and, exists_false, iff_false]
    intro h
    cases h
  · rcases hdepth : ctx.childChainDepth with _ | d
    · simp [bind, Except.bind, hchild]
    · cases d with
      | zero => simp [bind, Except.bind, hchild]
      | succ d => simp [bind, Except.bind, hchild, pure, Except.pure, eq_comm]

end Normalized

section Rights

variable {token : AccessToken} {ownerTenant nameSpace : String} {headers : Headers}
  {wire : SkillWireRequest B} {n : NormalizedSkillCall B}

/-- What a client without the privilege may get: a call at depth 1 without texts. -/
def SkillWireRequest.Plain (wire : SkillWireRequest B) (n : NormalizedSkillCall B) : Prop :=
  ∃ level, traceLevel wire.skillTrace = some level ∧ level ≠ .verbose ∧
    (wire.tools = .absent ∨ wire.tools = .array true) ∧
    n = ⟨level, responseModeOf level, 1, wire.rest⟩

/-- A request that is marked as a child gets the depth it names and any trace level. -/
theorem skillCall_child (hchild : headers skillChainChildHeader = some "1") :
    skillCall token ownerTenant nameSpace headers wire = .ok n ↔
      ∃ level, traceLevel wire.skillTrace = some level ∧
        ∃ d, (headers skillChainDepthHeader).bind parseU32 = some d ∧ d ≠ 0 ∧
          n = ⟨level, responseModeOf level, d, wire.rest⟩ := by
  have hctx : (skillContext token ownerTenant nameSpace headers).isChildRequest = true := by
    simp [skillContext, extractIsChildRequest, hchild]
  have hdepth : (skillContext token ownerTenant nameSpace headers).childChainDepth =
      (headers skillChainDepthHeader).bind parseU32 := by
    simp [skillContext, extractIsChildRequest, hchild]
  rw [← hdepth]
  exact normalize_child hctx

/-- Without the mark a client without the privilege gets what it may get. -/
theorem skillCall_root (hadmin : token.isNamespaceAdmin ownerTenant nameSpace = false)
    (hinferx : token.isInferxAdmin = false) (hchild : headers skillChainChildHeader ≠ some "1") :
    skillCall token ownerTenant nameSpace headers wire = .ok n ↔ wire.Plain n := by
  have hctx : (skillContext token ownerTenant nameSpace headers).isChildRequest = false := by
    simp [skillContext, extractIsChildRequest, hchild]
  have hdebug : (skillContext token ownerTenant nameSpace headers).isDebugAuthorized = false := by
    simp [skillContext, hadmin, hinferx]
  refine (normalize_root hctx).trans ?_
  simp only [hdebug, Bool.false_eq_true, imp_false, SkillWireRequest.Plain, ne_eq]

/-- The rules are kept when every call that is made is one the client may get. -/
theorem keepsRules_iff (hadmin : token.isNamespaceAdmin ownerTenant nameSpace = false)
    (hinferx : token.isInferxAdmin = false) :
    KeepsRules token ownerTenant nameSpace headers wire ↔
      ∀ n, skillCall token ownerTenant nameSpace headers wire = .ok n → wire.Plain n := by
  have hwithout : headers.without skillChainChildHeader ≠ some "1" := by simp [Headers.without]
  constructor
  · exact fun h n hn => (skillCall_root hadmin hinferx hwithout).mp (h.headers n hn)
  · intro h
    constructor
    · intro n hn
      obtain ⟨level, -, hlow, -, rfl⟩ := h n hn
      exact (showsNoText_iff rfl).mpr hlow
    · intro hne hne'
      cases hcase : skillCall token ownerTenant nameSpace headers wire with
      | error e => exact ⟨e, rfl⟩
      | ok n =>
        obtain ⟨-, -, -, htools, -⟩ := h n hcase
        exact (htools.elim hne hne').elim
    · intro n hn
      obtain ⟨level, -, -, -, rfl⟩ := h n hn
      rfl
    · exact fun n hn => (skillCall_root hadmin hinferx hwithout).mpr (h n hn)

/-- **Debug rights and headers.** A request of a client without the debug
privilege keeps the rules exactly when it is harmless. -/
theorem skill_rights_iff (hadmin : token.isNamespaceAdmin ownerTenant nameSpace = false)
    (hinferx : token.isInferxAdmin = false) :
    KeepsRules token ownerTenant nameSpace headers wire ↔ Harmless headers wire := by
  rw [keepsRules_iff hadmin hinferx]
  by_cases hchild : headers skillChainChildHeader = some "1"
  · constructor
    · intro h
      by_contra hbad
      simp only [Harmless, hchild, ne_eq, not_true_eq_false, false_or, not_or, not_forall] at hbad
      obtain ⟨⟨d, hd, hd0⟩, htrace, hrest⟩ := hbad
      obtain ⟨level, hlevel⟩ := Option.ne_none_iff_exists'.mp htrace
      -- the request runs, so it is one that the client may make
      obtain ⟨level', hlevel', hlow, htools, heq⟩ :=
        h _ ((skillCall_child hchild).mpr ⟨level, hlevel, d, hd, hd0, rfl⟩)
      obtain ⟨rfl, -, rfl, -⟩ := NormalizedSkillCall.mk.inj heq
      refine hrest ⟨hd, ?_, htools⟩
      rw [hlevel]
      exact fun hverbose => hlow (Option.some.inj hverbose)
    · intro h n hn
      obtain ⟨level, hlevel, d, hd, hd0, rfl⟩ := (skillCall_child hchild).mp hn
      rcases h with h | h | h | ⟨h1, hv, htools⟩
      · exact absurd hchild h
      · exact absurd (h d hd) hd0
      · rw [hlevel] at h
        cases h
      · rw [h1] at hd
        obtain rfl := Option.some.inj hd
        exact ⟨level, hlevel, fun hverbose => hv (hlevel.trans (congrArg some hverbose)), htools, rfl⟩
  · exact ⟨fun _ => .inl hchild, fun _ n hn => (skillCall_root hadmin hinferx hchild).mp hn⟩

end Rights

/-- The headers of a call to a child skill at the given depth. -/
def childHeaders (depth : String) : Headers := fun name =>
  if name = skillChainChildHeader then some "1"
  else if name = skillChainDepthHeader then some depth
  else none

theorem skill_rights_plain :
    KeepsRules (AccessToken.new "bob" [] [] 0) "acme" "prod" (fun _ => none)
      (⟨.number (some 2), .absent, ()⟩ : SkillWireRequest Unit) :=
  (skill_rights_iff (by decide +kernel) (by decide +kernel)).mpr (.inl (by decide))

/-- A stranger reads along by calling itself a child. -/
theorem childHeader_shows_text :
    ¬ ∀ (token : AccessToken) (ownerTenant nameSpace : String) (headers : Headers)
        (wire : SkillWireRequest Unit), token.isNamespaceAdmin ownerTenant nameSpace = false →
      token.isInferxAdmin = false → KeepsRules token ownerTenant nameSpace headers wire := by
  intro h
  have hrules := h (AccessToken.new "bob" [] [] 0) "acme" "prod" (childHeaders "1")
    ⟨.number (some 2), .absent, ()⟩ (by decide +kernel) (by decide +kernel)
  have hrun : skillCall (AccessToken.new "bob" [] [] 0) "acme" "prod" (childHeaders "1")
      ⟨.number (some 2), .absent, ()⟩ = .ok ⟨.verbose, .sseTrace, 1, ()⟩ := by rfl
  exact (showsNoText_iff rfl).mp (hrules.trace _ hrun) rfl

end Inferx.Gateway
