import Inferx.Gateway.Metering
import Inferx.Lib.Strs
import Inferx.Lib.Url
import Inferx.Skill.Usage

/-!
# What a model can call

A tool call of a model names the skill it wants by free text. The text is trimmed, has to
have three parts between slashes, and is looked up as a whole in the list of allowed skills
and among the mocks. The parts are then put into the URL of a request to the gateway itself,
as they are.
-/

namespace Inferx.Skill

open Inferx.Gateway Strs

/-! ## Calls -/

/-- `ParsedSkillToolCall`. -/
structure ParsedSkillToolCall where
  id : String := ""
  name : String := ""
  arguments : String := ""
  deriving DecidableEq, Repr

/-- `ParallelChildTaskInput`. -/
structure ParallelChildTaskInput where
  originalIndex : ℕ
  call : ParsedSkillToolCall

/-- `SkillTraceFailReason`. -/
inductive SkillTraceFailReason where
  | timeout | maxDepth | transportError | invalidResponse
  deriving DecidableEq, Repr

/-- `SkillTraceLevel`. -/
inductive SkillTraceLevel where
  | none | basic | verbose
  deriving DecidableEq, Repr

/-- `ParallelChildTaskContext`, without what is only logged. -/
structure ParallelChildTaskContext where
  currentDepth : ℕ
  /-- the headers of the parent that can be read as text -/
  headers : String → Option String := fun _ => none
  debugMocks : String → Option String := fun _ => none
  /-- is there a trace, and does it include the contents? -/
  trace : Option Bool := none
  allowedSkillepIds : Option (List String) := none

/-- `ParallelChildResult`. -/
structure ParallelChildResult where
  originalIndex : ℕ
  toolCallId : String
  toolResult : String
  failReason : Option SkillTraceFailReason := none
  usage : Option SkillTraceTokenUsage := none
  deriving DecidableEq, Repr

/-- A request to the gateway: the path of its URL, its headers, and what the body is made of. -/
structure ChildRequest where
  path : List Char
  headers : List (String × String)
  query : String
  skillTrace : SkillTraceLevel
  deriving DecidableEq, Repr

/-- `SKILL_CHAIN_MAX_DEPTH`. -/
def skillChainMaxDepth : ℕ := 5

/-- `SKILL_CHAIN_CHILD_HEADER`. -/
def skillChainChildHeader : String := "X-Inferx-Skill-Chain-Child"

/-- `SKILL_CHAIN_DEPTH_HEADER`. -/
def skillChainDepthHeader : String := "X-Chain-Depth"

/-- `parse_skillep_tool_args`: the id and the query. -/
def parseSkillepToolArgs (fromStr : String → Option Value) (arguments : String) :
    Except String (String × String) :=
  match fromStr arguments with
  | none => .error "Error: invalid tool arguments"
  | some args =>
    match (((args.get "skillep_id").bind Value.asStr).map trimWhite).filter (· ≠ "") with
    | none => .error ("Error: missing or empty skillep_id. " ++
        "Expected format: owner_tenant/namespace/skillname.")
    | some skillepId =>
      match (args.get "query").bind Value.asStr with
      | none => .error "Error: invalid tool arguments"
      | some query => .ok (skillepId, query)

/-- `split_skillep_id`. -/
def splitSkillepId (skillepId : String) : Except String (String × String × String) :=
  let parts := splitOnChar '/' skillepId
  let ownerTenant := parts[0]?.getD ""
  let nameSpace := parts[1]?.getD ""
  let skillname := parts[2]?.getD ""
  if ownerTenant = "" ∨ nameSpace = "" ∨ skillname = "" ∨ parts[3]?.isSome = true then
    .error (s!"Error: invalid skillep_id '{skillepId}'. Expected format: " ++
      "owner_tenant/namespace/skillname. Do not retry with the same value.")
  else .ok (ownerTenant, nameSpace, skillname)

/-- `u32::checked_add(1)`. -/
def checkedSucc (n : ℕ) : Option ℕ := if n + 1 < 4294967296 then some (n + 1) else none

/-- The text of the URL behind the slash after host and port. -/
def childUrlTail (ownerTenant nameSpace skillname : String) : List Char :=
  "skills/".toList ++ ownerTenant.toList ++ '/' :: nameSpace.toList ++ '/' :: skillname.toList ++
    "/v1/chat/completions".toList

/-- `copy_forwarded_child_headers`. -/
def copyForwardedChildHeaders (headers : String → Option String) : List (String × String) :=
  ["Authorization", "X-Request-Id", "traceparent"].filterMap fun name =>
    (headers name).map fun v => (name, v)

/-- The request of a child call. -/
def childRequest (context : ParallelChildTaskContext)
    (ownerTenant nameSpace skillname query : String)
    (nextDepth : ℕ) : ChildRequest where
  path := Url.path (childUrlTail ownerTenant nameSpace skillname)
  headers := [("content-type", "application/json"), (skillChainChildHeader, "1"),
    (skillChainDepthHeader, toString nextDepth)] ++ copyForwardedChildHeaders context.headers
  query := query
  skillTrace := match context.trace with
    | none => .none
    | some true => .verbose
    | some false => .basic

/-- `execute_parallel_child_call` and the requests it sends. `answer` is what it makes of what it
gets for a request. -/
def executeParallelChildCall (fromStr : String → Option Value)
    (answer : ChildRequest → String × Option SkillTraceFailReason × Option SkillTraceTokenUsage)
    (task : ParallelChildTaskInput) (context : ParallelChildTaskContext) :
    ParallelChildResult × List ChildRequest :=
  let result : ParallelChildResult := ⟨task.originalIndex, task.call.id, "", none, none⟩
  match parseSkillepToolArgs fromStr task.call.arguments with
  | .error err => ({ result with toolResult := err }, [])
  | .ok (skillepId, query) =>
    match splitSkillepId skillepId with
    | .error err => ({ result with toolResult := err }, [])
    | .ok (ownerTenant, nameSpace, skillname) =>
      if context.allowedSkillepIds.any (fun allowed => !allowed.contains skillepId) = true then
        ({ result with toolResult := "Error: skill endpoint not in allowed list" }, [])
      else
        match context.debugMocks skillepId with
        | some mocked => ({ result with toolResult := mocked }, [])
        | none =>
          match (checkedSucc context.currentDepth).filter (· ≤ skillChainMaxDepth) with
          | none => ({ result with toolResult := "Error: max chain depth exceeded",
                                   failReason := some .maxDepth }, [])
          | some nextDepth =>
            let request := childRequest context ownerTenant nameSpace skillname query nextDepth
            let (toolResult, failReason, usage) := answer request
            ({ result with toolResult, failReason, usage }, [request])

/-! ## The parts of an id -/

/-- The id has three parts that are not empty, with slashes between. -/
structure Parts (skillepId ownerTenant nameSpace skillname : String) : Prop where
  eq : skillepId.toList =
    ownerTenant.toList ++ '/' :: nameSpace.toList ++ '/' :: skillname.toList
  ownerTenant : ownerTenant ≠ "" ∧ '/' ∉ ownerTenant.toList
  nameSpace : nameSpace ≠ "" ∧ '/' ∉ nameSpace.toList
  skillname : skillname ≠ "" ∧ '/' ∉ skillname.toList

section Ids

variable {skillepId o n s : String}

theorem splitSkillepId_eq_ok : splitSkillepId skillepId = .ok (o, n, s) ↔
    Parts skillepId o n s := by
  constructor
  · intro h
    have hsplit : splitOnChar '/' skillepId = [o, n, s] ∧ o ≠ "" ∧ n ≠ "" ∧ s ≠ "" := by
      unfold splitSkillepId at h
      dsimp only at h
      split at h
      next => cases h
      next hparts =>
        obtain ⟨ho, hn, hs, hlast⟩ : _ ∧ _ ∧ _ ∧ _ := by
          simpa only [not_or] using hparts
        obtain ⟨rfl, hns⟩ := Prod.mk.inj (Except.ok.inj h)
        obtain ⟨rfl, rfl⟩ := Prod.mk.inj hns
        rcases hl : splitOnChar '/' skillepId with _ | ⟨a, _ | ⟨b, _ | ⟨c, _ | ⟨d, l⟩⟩⟩⟩ <;>
          rw [hl] at ho hn hs hlast
        · exact absurd rfl ho
        · exact absurd rfl hn
        · exact absurd rfl hs
        · exact ⟨rfl, ho, hn, hs⟩
        · exact absurd rfl hlast
    obtain ⟨hsplit, ho, hn, hs⟩ := hsplit
    have hnot : ∀ x ∈ splitOnChar '/' skillepId, '/' ∉ x.toList := by
      intro x hx
      obtain ⟨piece, hpiece, rfl⟩ := List.mem_map.mp hx
      rw [String.toList_ofList]
      exact List.not_mem_of_mem_splitOn hpiece
    rw [hsplit] at hnot
    refine ⟨?_, ⟨ho, hnot o (by simp)⟩, ⟨hn, hnot n (by simp)⟩, ⟨hs, hnot s (by simp)⟩⟩
    have hpieces : skillepId.toList.splitOn '/' = [o.toList, n.toList, s.toList] := by
      have hmap := congrArg (List.map String.toList) hsplit
      unfold splitOnChar at hmap
      rw [List.map_map] at hmap
      simpa using hmap
    have hjoin : ['/'].intercalate (skillepId.toList.splitOn '/') = skillepId.toList :=
      List.intercalate_splitOn '/'
    rw [← hjoin, hpieces]
    simp [List.intercalate]
  · rintro ⟨heq, ⟨ho, hos⟩, ⟨hn, hns⟩, hs, hss⟩
    have hsplit : splitOnChar '/' skillepId = [o, n, s] := by
      have hid : skillepId = String.ofList (o.toList ++ '/' :: (n.toList ++ '/' :: s.toList)) := by
        rw [← String.ofList_toList (s := skillepId), heq]
        simp
      rw [hid, splitOnChar_append hos, splitOnChar_append hns, String.ofList_toList,
        splitOnChar_self hss]
    unfold splitSkillepId
    rw [hsplit]
    simp [ho, hn, hs]

end Ids

/-! ## What is sent -/

/-- What the arguments of a tool call name; the id is without the white space around it. -/
structure Names (fromStr : String → Option Value) (arguments skillepId query : String) : Prop where
  args : ∃ args text, fromStr arguments = some args ∧ args.get "skillep_id" = some (.string text) ∧
    trimWhite text = skillepId ∧ args.get "query" = some (.string query)
  nonempty : skillepId ≠ ""

/-- A call goes out: the id is well formed, allowed and not mocked, the chain not too deep. -/
structure Calls (fromStr : String → Option Value) (context : ParallelChildTaskContext)
    (arguments skillepId o n s query : String) : Prop where
  names : Names fromStr arguments skillepId query
  parts : Parts skillepId o n s
  allowed : ∀ allowed, context.allowedSkillepIds = some allowed → skillepId ∈ allowed
  notMocked : context.debugMocks skillepId = none
  depth : context.currentDepth < skillChainMaxDepth

section Sent

variable {fromStr : String → Option Value}
  {answer : ChildRequest → String × Option SkillTraceFailReason × Option SkillTraceTokenUsage}
  {task : ParallelChildTaskInput} {context : ParallelChildTaskContext}
  {arguments skillepId o n s query : String}

theorem asStr_bind_eq_some {v : Option Value} {text : String} :
    v.bind Value.asStr = some text ↔ v = some (.string text) := by
  constructor
  · intro h
    obtain ⟨v, rfl, hv⟩ := Option.bind_eq_some_iff.mp h
    cases v <;> simp_all [Value.asStr]
  · rintro rfl
    rfl

theorem parseSkillepToolArgs_eq_ok :
    parseSkillepToolArgs fromStr arguments = .ok (skillepId, query) ↔
      Names fromStr arguments skillepId query := by
  unfold parseSkillepToolArgs
  constructor
  · intro h
    split at h
    next => cases h
    next args hargs =>
      split at h
      next => cases h
      next id hid =>
        split at h
        next => cases h
        next q hq =>
          obtain ⟨rfl, rfl⟩ := Prod.mk.inj (Except.ok.inj h)
          obtain ⟨hid, hne⟩ := Option.filter_eq_some_iff.mp hid
          obtain ⟨text, htext, rfl⟩ := Option.map_eq_some_iff.mp hid
          exact ⟨⟨args, text, hargs, asStr_bind_eq_some.mp htext, rfl, asStr_bind_eq_some.mp hq⟩,
            of_decide_eq_true hne⟩
  · rintro ⟨⟨args, text, hargs, htext, rfl, hquery⟩, hne⟩
    have hid : (((args.get "skillep_id").bind Value.asStr).map trimWhite).filter (· ≠ "") =
        some (trimWhite text) := by
      rw [htext]
      exact Option.filter_eq_some_iff.mpr ⟨rfl, decide_eq_true hne⟩
    rw [hargs]
    dsimp only
    rw [hid]
    dsimp only
    rw [hquery]
    rfl

/-- The allowed depth, counted on. -/
theorem nextDepth_eq_some {d k : ℕ} :
    (checkedSucc d).filter (· ≤ skillChainMaxDepth) = some k ↔ d < skillChainMaxDepth ∧
    k = d + 1 := by
  unfold checkedSucc skillChainMaxDepth
  split
  next h =>
    rw [Option.filter_eq_some_iff, Option.some_inj, decide_eq_true_iff]
    omega
  next h =>
    rw [Option.filter_none]
    constructor
    · intro h'
      cases h'
    · omega

theorem allowed_iff {allowedIds : Option (List String)} :
    ¬ allowedIds.any (fun allowed => !allowed.contains skillepId) = true ↔
      ∀ allowed, allowedIds = some allowed → skillepId ∈ allowed := by
  rw [Option.any_eq_true]
  simp

/-- **What is sent.** A call that goes out sends its request. -/
theorem sent_of_calls (h : Calls fromStr context task.call.arguments skillepId o n s query) :
    (executeParallelChildCall fromStr answer task context).2 =
      [childRequest context o n s query (context.currentDepth + 1)] := by
  unfold executeParallelChildCall
  dsimp only
  rw [parseSkillepToolArgs_eq_ok.mpr h.names]
  dsimp only
  rw [splitSkillepId_eq_ok.mpr h.parts]
  dsimp only
  rw [if_neg (allowed_iff.mpr h.allowed), h.notMocked]
  dsimp only
  rw [nextDepth_eq_some.mpr ⟨h.depth, rfl⟩]

/-- Nothing else is sent. -/
theorem calls_of_sent {request : ChildRequest}
    (h : request ∈ (executeParallelChildCall fromStr answer task context).2) :
    ∃ skillepId o n s query, Calls fromStr context task.call.arguments skillepId o n s query := by
  unfold executeParallelChildCall at h
  dsimp only at h
  split at h
  next => cases h
  next skillepId query hparse =>
    split at h
    next => cases h
    next o n s hsplit =>
      split at h
      next => cases h
      next hallowed =>
        split at h
        next => cases h
        next hmock =>
          split at h
          next => cases h
          next k hdepth =>
            exact ⟨skillepId, o, n, s, query, parseSkillepToolArgs_eq_ok.mp hparse,
              splitSkillepId_eq_ok.mp hsplit, allowed_iff.mp hallowed, hmock,
              (nextDepth_eq_some.mp hdepth).1⟩

end Sent

/-! ## The path -/

/-- The path of a skill; its parts are spelled as they have to be in a path. -/
def skillPath (ownerTenant nameSpace skillname : String) : List Char :=
  "/skills/".toList ++ Url.encode ownerTenant.toList ++ '/' :: Url.encode nameSpace.toList ++
    '/' :: Url.encode skillname.toList ++ "/v1/chat/completions".toList

/-- A part that means itself in a URL. -/
structure PlainPart (part : String) : Prop where
  chars : ∀ c ∈ part.toList,
    Url.isTabOrNewline c = false ∧ Url.endsPath c = false ∧ c ≠ '\\'
  notDot : Url.isDot part.toList = false

section Path

variable {o n s : String}

theorem skillPath_eq : skillPath o n s = '/' :: Url.encode (childUrlTail o n s) := by
  have hfirst : Url.encode "skills/".toList = "skills/".toList := by decide +kernel
  have hlast : Url.encode "/v1/chat/completions".toList = "/v1/chat/completions".toList := by
    decide +kernel
  have hslash : ∀ l, Url.encode ('/' :: l) = '/' :: Url.encode l := fun l => by
    rw [Url.encode_cons, Url.encodeChar_slash (by decide)]
    rfl
  unfold skillPath childUrlTail
  simp only [List.append_assoc, List.cons_append, Url.encode_append, hslash, hfirst, hlast]
  rfl

theorem harmless_of_all {l : List Char}
    (h : l.all (fun c => !Url.isTabOrNewline c && !Url.endsPath c && c != '\\') = true) :
    ∀ c ∈ l, Url.isTabOrNewline c = false ∧ Url.endsPath c = false ∧ c ≠ '\\' := by
  intro c hc
  simpa [and_assoc] using List.all_eq_true.mp h c hc

/-- The URL is read as written if its three parts are plain. -/
theorem plain_childUrlTail (ho : '/' ∉ o.toList) (hn : '/' ∉ n.toList) (hs : '/' ∉ s.toList) :
    Url.Plain (childUrlTail o n s) ↔ PlainPart o ∧ PlainPart n ∧ PlainPart s := by
  have hsplit : (childUrlTail o n s).splitOn '/' = ["skills".toList, o.toList, n.toList, s.toList,
      "v1".toList, "chat".toList, "completions".toList] := by
    have hshape : childUrlTail o n s = "skills".toList ++ '/' :: (o.toList ++ '/' :: (n.toList ++
        '/' :: (s.toList ++ '/' :: "v1/chat/completions".toList))) := by
      unfold childUrlTail
      simp only [List.append_assoc, List.cons_append]
      rfl
    rw [hshape, List.splitOn_append_cons_self_of_not_mem (by decide),
      List.splitOn_append_cons_self_of_not_mem ho, List.splitOn_append_cons_self_of_not_mem hn,
      List.splitOn_append_cons_self_of_not_mem hs]
    rfl
  have hmem : ∀ c, c ∈ childUrlTail o n s ↔ c ∈ "skills/".toList ∨ c ∈ o.toList ∨ c = '/' ∨
      c ∈ n.toList ∨ c = '/' ∨ c ∈ s.toList ∨ c ∈ "/v1/chat/completions".toList := by
    intro c
    unfold childUrlTail
    simp only [List.mem_append, List.mem_cons, or_assoc]
  unfold Url.Plain
  rw [hsplit]
  constructor
  · rintro ⟨hchars, hdots⟩
    have hall := List.forall_mem_cons.mp (List.forall_mem_cons.mp hdots).2
    have hlast := List.forall_mem_cons.mp (List.forall_mem_cons.mp hall.2).2
    exact ⟨⟨fun c hc => hchars c ((hmem c).mpr (.inr (.inl hc))), hall.1⟩,
      ⟨fun c hc => hchars c ((hmem c).mpr (.inr (.inr (.inr (.inl hc))))),
        (List.forall_mem_cons.mp hall.2).1⟩,
      ⟨fun c hc => hchars c ((hmem c).mpr (.inr (.inr (.inr (.inr (.inr (.inl hc))))))), hlast.1⟩⟩
  · rintro ⟨ho, hn, hs⟩
    have hfirst := harmless_of_all (l := "skills/".toList) (by decide +kernel)
    have hlast := harmless_of_all (l := "/v1/chat/completions".toList) (by decide +kernel)
    constructor
    · intro c hc
      rcases (hmem c).mp hc with hc | hc | rfl | hc | rfl | hc | hc
      · exact hfirst c hc
      · exact ho.chars c hc
      · decide
      · exact hn.chars c hc
      · decide
      · exact hs.chars c hc
      · exact hlast c hc
    · simp only [List.forall_mem_cons, List.not_mem_nil, false_implies, implies_true, and_true]
      exact ⟨by decide +kernel, ho.notDot, hn.notDot, hs.notDot, by decide +kernel,
        by decide +kernel, by decide +kernel⟩

end Path

/-! ## The promise -/

/-- At most one request, and it goes to the skill that the arguments name, which is allowed, one
level deeper. -/
structure SendsOnly (fromStr : String → Option Value) (context : ParallelChildTaskContext)
    (arguments : String) (requests : List ChildRequest) : Prop where
  once : requests.length ≤ 1
  reach : ∀ request ∈ requests, ∃ skillepId o n s query,
    Names fromStr arguments skillepId query ∧ Parts skillepId o n s ∧
      request.path = skillPath o n s ∧
      (∀ allowed, context.allowedSkillepIds = some allowed → skillepId ∈ allowed) ∧
      (∀ v, (skillChainDepthHeader, v) ∈ request.headers ↔
        v = toString (context.currentDepth + 1)) ∧
      context.currentDepth + 1 ≤ skillChainMaxDepth

section Promise

variable {fromStr : String → Option Value}
  {answer : ChildRequest → String × Option SkillTraceFailReason × Option SkillTraceTokenUsage}
  {task : ParallelChildTaskInput} {context : ParallelChildTaskContext}

theorem path_childRequest {o n s query : String} {k : ℕ} :
    (childRequest context o n s query k).path = Url.path (childUrlTail o n s) := by
  unfold childRequest
  dsimp only

theorem depthHeader_iff {o n s query v : String} {k : ℕ} :
    (skillChainDepthHeader, v) ∈ (childRequest context o n s query k).headers ↔ v = toString k := by
  have hforwarded : (skillChainDepthHeader, v) ∉ copyForwardedChildHeaders context.headers := by
    intro hmem
    obtain ⟨name, hname, hv⟩ := List.mem_filterMap.mp hmem
    obtain ⟨_, -, heq⟩ := Option.map_eq_some_iff.mp hv
    rw [(Prod.mk.inj heq).1] at hname
    exact absurd hname (by decide)
  unfold childRequest
  rw [List.mem_append, or_iff_left hforwarded]
  simp [skillChainDepthHeader, skillChainChildHeader]

/-- **What a model can reach.** A tool call keeps to what it names exactly if, in case it sends a
request, the parts of the id are plain. -/
theorem sendsOnly_iff :
    SendsOnly fromStr context task.call.arguments
        (executeParallelChildCall fromStr answer task context).2 ↔
      ∀ skillepId o n s query, Calls fromStr context task.call.arguments skillepId o n s query →
        PlainPart o ∧ PlainPart n ∧ PlainPart s := by
  constructor
  · rintro ⟨-, hreach⟩ skillepId o n s query hcalls
    obtain ⟨id', o', n', s', query', hnames, hparts, hpath, -⟩ := hreach
      (childRequest context o n s query (context.currentDepth + 1))
      (by rw [sent_of_calls hcalls]; exact List.mem_singleton_self _)
    -- the arguments name one id, and it has these parts
    have hid : (id', query') = (skillepId, query) := Except.ok.inj
      ((parseSkillepToolArgs_eq_ok.mpr hnames).symm.trans
        (parseSkillepToolArgs_eq_ok.mpr hcalls.names))
    obtain ⟨rfl, rfl⟩ := Prod.mk.inj hid
    have hsame : (o', n', s') = (o, n, s) := Except.ok.inj
      ((splitSkillepId_eq_ok.mpr hparts).symm.trans (splitSkillepId_eq_ok.mpr hcalls.parts))
    obtain ⟨rfl, hns⟩ := Prod.mk.inj hsame
    obtain ⟨rfl, rfl⟩ := Prod.mk.inj hns
    rw [path_childRequest, skillPath_eq] at hpath
    exact (plain_childUrlTail hparts.ownerTenant.2 hparts.nameSpace.2 hparts.skillname.2).mp
      (Url.path_eq_iff.mp hpath)
  · intro hplain
    by_cases hsent : (executeParallelChildCall fromStr answer task context).2 = []
    · rw [hsent]
      exact ⟨Nat.zero_le 1, fun request hrequest => nomatch hrequest⟩
    · obtain ⟨request, hrequest⟩ := List.exists_mem_of_ne_nil _ hsent
      obtain ⟨skillepId, o, n, s, query, hcalls⟩ := calls_of_sent hrequest
      rw [sent_of_calls hcalls]
      refine ⟨Nat.le_refl 1, fun request hrequest => ?_⟩
      obtain rfl := List.mem_singleton.mp hrequest
      have hparts := hcalls.parts
      refine ⟨skillepId, o, n, s, query, hcalls.names, hparts, ?_, hcalls.allowed,
        fun v => depthHeader_iff, hcalls.depth⟩
      rw [path_childRequest, skillPath_eq]
      exact Url.path_eq_iff.mpr ((plain_childUrlTail hparts.ownerTenant.2 hparts.nameSpace.2
        hparts.skillname.2).mpr (hplain _ _ _ _ _ hcalls))

/-- **Dots as a namespace.** The id `a/../b` has three parts, and its request goes to a path with
one. -/
theorem dots_leave_path :
    let text := "\x7b\"skillep_id\":\"a/../b\",\"query\":\"hi\"\x7d"
    let fromStr : String → Option Value := fun s => if s = text then
      some (.object [("skillep_id", .string "a/../b"), ("query", .string "hi")]) else none
    let requests := (executeParallelChildCall fromStr (fun _ => ("", none, none))
      ⟨0, { id := "c", name := "call_skill", arguments := text }⟩ { currentDepth := 0 }).2
    requests.map ChildRequest.path = ["/skills/b/v1/chat/completions".toList] ∧
      ¬ SendsOnly fromStr { currentDepth := 0 } text requests := by
  intro text fromStr requests
  have hpath : requests.map ChildRequest.path = ["/skills/b/v1/chat/completions".toList] := by
    decide +kernel
  refine ⟨hpath, fun h => ?_⟩
  have hparse : parseSkillepToolArgs fromStr text = .ok ("a/../b", "hi") := by decide +kernel
  obtain ⟨request, hrequest⟩ : ∃ request, request ∈ requests := by
    refine List.exists_mem_of_ne_nil _ fun hnil => ?_
    rw [hnil] at hpath
    cases hpath
  obtain ⟨skillepId, o, n, s, query, hnames, hparts, hreached, -⟩ := h.reach request hrequest
  have hid := Except.ok.inj (hparse.symm.trans (parseSkillepToolArgs_eq_ok.mpr hnames))
  obtain ⟨rfl, rfl⟩ := Prod.mk.inj hid
  have hsplit : splitSkillepId "a/../b" = .ok ("a", "..", "b") := by decide +kernel
  have hsame := Except.ok.inj (hsplit.symm.trans (splitSkillepId_eq_ok.mpr hparts))
  obtain ⟨rfl, hns⟩ := Prod.mk.inj hsame
  obtain ⟨rfl, rfl⟩ := Prod.mk.inj hns
  have hmem : skillPath "a" ".." "b" ∈ requests.map ChildRequest.path :=
    hreached ▸ List.mem_map_of_mem hrequest
  rw [hpath] at hmem
  exact absurd hmem (by decide +kernel)

end Promise

end Inferx.Skill
