import Mathlib
import Inferx.Lib.Proc
import Inferx.Gateway.Metering

/-!
# What is metered

A request that is answered with a usage object is to leave one row with the counts
of that object. It does if the counts fit in 32 bits, the client's id fits in its
column, the request tells that the answer is streamed exactly when it is, and the line
that counts has an end: a last line without one is passed on to the client and not read.
The frames of a streamed answer have to be text each by itself: a frame that ends within
a character is not read.

Of the JSON reader two facts are used: an object that has been read keeps its `stream`
flag when it is written without its model, and no JSON text has a line of event data.
-/

namespace Inferx.Gateway

open Lines

variable {serde : Serde} {gw : HttpGateway} {env : DispatchEnv} {ans : Answer} {u : Object}

/-! ## What an answer carries -/

/-- What is used of the JSON reader and writer. -/
structure SerdeOk (serde : Serde) : Prop where
  /-- an object that has been read is written, without its model, as a text that is read back
  with its flag -/
  reread : ∀ (body : ByteArray) (o : Object) (b : ByteArray), serde.fromSlice body = some (.object o) →
    serde.toVec (.object (o.remove "model")) = some b →
    ∃ w, serde.fromSlice b = some w ∧ streamFlag w = streamFlag (.object (o.remove "model"))
  /-- no JSON text has a line of event data -/
  noData : ∀ text, ∀ line ∈ text.splitOn '\n', (dataOf (chomp line)).isSome = true →
    serde.fromStr text = none

/-- The forms of an answer. -/
inductive Form where
  /-- one JSON text -/
  | whole
  /-- a stream of events -/
  | events
  deriving DecidableEq

/-- The last usage object of some lines. -/
def lastUsage (serde : Serde) (lines : List (List Char)) : Option Object :=
  lines.foldl (fun acc line => (lineUsage serde line).or acc) none

/-- The usage object that an answer carries: of a stream the one of its last line of data with a
usage, whether the line has an end or not. -/
def Answer.usage (serde : Serde) (ans : Answer) : Form → Option Object
  | .whole => (fromUtf8 (collect ans.frames)).bind (usageOf serde)
  | .events => (fromUtf8 (collect ans.frames)).bind fun text => lastUsage serde (text.splitOn '\n')

/-- The usage object of the lines of a stream that have an end. -/
def Answer.endedUsage (serde : Serde) (ans : Answer) : Option Object :=
  (fromUtf8 (collect ans.frames)).bind fun text => lastUsage serde (text.splitOn '\n').dropLast

/-- No frame is broken. -/
def Answer.Ended (ans : Answer) : Prop := ∀ f ∈ ans.frames, ∃ b, f = .data b

/-- Each frame is text by itself. -/
def Answer.TextFrames (ans : Answer) : Prop := ∀ b, Frame.data b ∈ ans.frames →
    (fromUtf8 b).isSome = true

theorem lastUsage_none {lines : List (List Char)}
    (h : ∀ line ∈ lines, lineUsage serde line = none) :
    lastUsage serde lines = none := by
  unfold lastUsage
  induction lines with
  | nil => rfl
  | cons line lines ih =>
    rw [List.foldl_cons, h line List.mem_cons_self]
    exact ih fun l hl => h l (List.mem_cons_of_mem _ hl)

/-- The usage of the lines with an end is that of all, unless the last line has one of its own. -/
theorem lastUsage_split (text : List Char) : lastUsage serde (text.splitOn '\n') =
    (lineUsage serde (drain text).2).or (lastUsage serde (drain text).1) := by
  unfold lastUsage
  rw [splitOn_eq, List.foldl_append, List.foldl_cons, List.foldl_nil]

theorem lastUsage_dropLast (text : List Char) :
    lastUsage serde (text.splitOn '\n').dropLast = lastUsage serde (drain text).1 := by
  rw [splitOn_eq, List.dropLast_concat]

/-- A usage of the lines with an end is one of the stream. -/
theorem isSome_usage_of_ended (h : (ans.endedUsage serde).isSome = true) :
    (ans.usage serde .events).isSome = true := by
  unfold Answer.endedUsage at h
  unfold Answer.usage
  dsimp only
  rcases htext : fromUtf8 (collect ans.frames) with _ | text
  · rw [htext] at h
    cases h
  · rw [htext, Option.bind_some, lastUsage_dropLast] at h
    rw [Option.bind_some, lastUsage_split, Option.isSome_or, h, Bool.or_true]

/-- An answer has one form. -/
theorem usage_exclusive (hserde : SerdeOk serde) (h : (ans.usage serde .whole).isSome = true) :
    ans.usage serde .events = none := by
  unfold Answer.usage at h ⊢
  rcases htext : fromUtf8 (collect ans.frames) with _ | text
  · rfl
  · rw [htext, Option.bind_some] at h
    refine lastUsage_none fun line hline => ?_
    unfold lineUsage
    rcases hdata : dataOf (chomp line) with _ | json
    · rfl
    · -- a line of data, so the text is no JSON
      have hnone := hserde.noData text line hline (by rw [hdata]; rfl)
      unfold usageOf at h
      rw [hnone] at h
      cases h

/-! ## Text -/

theorem fromUtf8_eq_some {b : ByteArray} {text : List Char} : fromUtf8 b = some text ↔
    b = text.utf8Encode := by
  unfold fromUtf8
  constructor
  · intro h
    obtain ⟨a, ha, rfl⟩ := Option.map_eq_some_iff.mp h
    have hvalid : b.utf8Decode?.isSome = true := by rw [ha]; rfl
    have hget := ByteArray.utf8Encode_get_utf8Decode? (b := b) (h := hvalid)
    simp only [ha, Option.get_some] at hget
    exact hget.symm
  · rintro rfl
    simp

/-- The texts of the frames. -/
def Texts : List Frame → List (List Char) → Prop :=
  List.Forall₂ fun f text => ∃ b, f = .data b ∧ fromUtf8 b = some text

theorem exists_texts {frames : List Frame} (hended : ∀ f ∈ frames, ∃ b, f = .data b)
    (htext : ∀ b, Frame.data b ∈ frames → (fromUtf8 b).isSome = true) :
    ∃ texts, Texts frames texts := by
  induction frames with
  | nil => exact ⟨[], List.Forall₂.nil⟩
  | cons f frames ih =>
    obtain ⟨b, rfl⟩ := hended f List.mem_cons_self
    obtain ⟨text, hb⟩ := Option.isSome_iff_exists.mp (htext b List.mem_cons_self)
    obtain ⟨texts, hrest⟩ := ih (fun f hf => hended f (List.mem_cons_of_mem _ hf))
      fun b hb => htext b (List.mem_cons_of_mem _ hb)
    exact ⟨text :: texts, List.Forall₂.cons ⟨b, rfl, hb⟩ hrest⟩

/-- A body whose frames are text is the text of them all. -/
theorem fromUtf8_collect {frames : List Frame} {texts : List (List Char)} (h : Texts frames texts) :
    fromUtf8 (collect frames) = some texts.flatten := by
  have hjoined : joined frames = some texts.flatten.utf8Encode := by
    induction h with
    | nil => simp [joined]
    | cons hf hrest ih =>
      obtain ⟨b, rfl, hb⟩ := hf
      rw [joined, ih, List.flatten_cons, List.utf8Encode_append, ← fromUtf8_eq_some.mp hb]
      rfl
  rw [fromUtf8_eq_some, collect, hjoined, Option.getD_some]

/-! ## The stream -/

/-- The usage that some lines leave, given the one before them. -/
def usageAfter (serde : Serde) (acc : Option UsageInfo) (lines : List (List Char)) :
    Option UsageInfo :=
  lines.foldl (fun acc line => ((lineUsage serde line).map parseUsage).or acc) acc

theorem usageAfter_append (acc : Option UsageInfo) (l l' : List (List Char)) :
    usageAfter serde acc (l ++ l') = usageAfter serde (usageAfter serde acc l) l' :=
  List.foldl_append

theorem usageAfter_map (acc : Option Object) (lines : List (List Char)) :
    usageAfter serde (acc.map parseUsage) lines =
      (lines.foldl (fun acc line => (lineUsage serde line).or acc) acc).map parseUsage := by
  unfold usageAfter
  induction lines generalizing acc with
  | nil => rfl
  | cons line lines ih =>
    rw [List.foldl_cons, List.foldl_cons, ← ih]
    rcases lineUsage serde line with _ | u
    · rfl
    · rfl

theorem foldl_onLine (filter : Bool) (acc : Option UsageInfo × List Char)
    (lines : List (List Char)) :
    (lines.foldl (onLine serde filter) acc).1 = usageAfter serde acc.1 lines := by
  unfold usageAfter
  induction lines generalizing acc with
  | nil => rfl
  | cons line lines ih =>
    rw [List.foldl_cons, List.foldl_cons, ih]
    congr 1
    unfold onLine
    rcases lineUsage serde line with _ | u
    · rfl
    · rfl

/-- One frame of text. -/
theorem onFrame_text (filter : Bool) (st : StreamState) {b : ByteArray} {text : List Char}
    (h : fromUtf8 b = some text) :
    (onFrame serde filter st b).1.lastUsage = usageAfter serde st.lastUsage
    (drain (st.buf ++ text)).1 ∧
      (onFrame serde filter st b).1.buf = (drain (st.buf ++ text)).2 := by
  unfold onFrame
  rw [h]
  exact ⟨foldl_onLine filter _ _, rfl⟩

/-- A stream that ends leaves the usage of its lines. -/
theorem streamFrames_text {filter : Bool} {frames : List Frame} {texts : List (List Char)} (n : ℕ)
    (st : StreamState) (h : Texts frames texts) :
    (streamFrames serde filter (fun _ => true) n st frames).2 =
      usageAfter serde st.lastUsage (feed st.buf texts).1 := by
  induction h generalizing n st with
  | nil => rfl
  | cons hf hrest ih =>
    obtain ⟨b, rfl, hb⟩ := hf
    have hframe : (onFrame serde filter st b).1.lastUsage = _ ∧ _ := onFrame_text filter st hb
    rw [feed, usageAfter_append, ← hframe.1, ← hframe.2]
    exact ih (n + 1) _

/-- The event of a usage object. -/
def eventOf (meter : TokenMeterCtx) (u : Object) : TokenUsageEvent :=
  usageEvent meter (parseUsage u)

/-- What the gateway reads of an answer: the whole text, or the lines that have an end. -/
def Answer.readUsage (serde : Serde) (ans : Answer) : Form → Option Object
  | .whole => ans.usage serde .whole
  | .events => ans.endedUsage serde

/-- What is recorded is the usage of the form that is expected. -/
theorem event_processUsageResponse {isStreaming filter : Bool} {meter : TokenMeterCtx}
    (hended : ans.Ended)
    (htext : isStreaming = true → ans.TextFrames) :
    (processUsageResponse serde (fun _ => true) ans isStreaming filter (some meter)).2 =
      (ans.readUsage serde (if isStreaming then .events else .whole)).map (eventOf meter) := by
  unfold processUsageResponse
  cases isStreaming with
  | false =>
    simp only [Bool.false_eq_true, if_false, Answer.readUsage, Answer.usage]
    rcases (fromUtf8 (collect ans.frames)).bind (usageOf serde) with _ | u
    · rfl
    · rfl
  | true =>
    obtain ⟨texts, htexts⟩ := exists_texts hended (htext rfl)
    simp only [if_true, Answer.readUsage, Answer.endedUsage]
    rw [streamFrames_text 0 {} htexts, fromUtf8_collect htexts, feed_eq [] texts rfl,
      List.nil_append, Option.bind_some, lastUsage_dropLast]
    have hmap : usageAfter serde none (drain texts.flatten).1 = _ := usageAfter_map none _
    rw [hmap]
    unfold lastUsage
    rcases (drain texts.flatten).1.foldl
      (fun acc line => (lineUsage serde line).or acc) none with _ | u
    · rfl
    · rfl

/-! ## The request -/

variable {req : Request} {callerTenant : String} {source : SharedSource} {v : Value} {r : Routed}

/-- The answer that a request gets upstream. -/
def Routed.answer : Routed → Option Answer
  | .refused _ _ => none
  | .passed ans => some ans
  | .metered ans _ _ _ => some ans

theorem orStatus_eq_ok {α : Type} {status : ℕ} {x : Option α} {a : α} :
    orStatus status x = .ok a ↔ x = some a := by
  rcases x with _ | b
  · simp [orStatus]
  · simp [orStatus]

/-- Another key is not removed. -/
theorem get_remove {o : Object} {key k : String} (h : k ≠ key) :
    (o.remove key).get k = o.get k := by
  unfold Object.remove Object.get
  rw [List.find?_filter]
  congr 2
  funext e
  by_cases he : e.1 = k
  · simp [he, h]
  · simp [he]

theorem streamFlag_remove (o : Object) :
    streamFlag (.object (o.remove "model")) = streamFlag (.object o) := by
  have hget : (o.remove "model").get "stream" = o.get "stream" := get_remove (by decide)
  unfold streamFlag Value.get Value.asObject
  simp only [Option.bind_some, hget]

/-- Whether a request is streamed is read off the body that is sent on. -/
theorem injectUsageOptions_flag {x : Request × Bool × Bool} {w : Value}
    (hw : serde.fromSlice req.body = some w)
    (h : injectUsageOptions serde req = .ok x) : x.2.1 = streamFlag w := by
  unfold injectUsageOptions at h
  split at h
  next => cases h
  next =>
    rw [hw] at h
    dsimp only at h
    generalize (if streamFlag w = true then usageFlag w else true) = usageEnabled at h
    split at h
    next =>
      obtain rfl := Except.ok.inj h
      rfl
    next =>
      obtain rfl := Except.ok.inj h
      rfl

/-- What the external branch makes of a request. -/
theorem routeExternal_metered {ext : ExternalEndpoint} {o : Object} {meter : TokenMeterCtx}
    (h : routeExternal serde gw ext req o callerTenant source meter = .ok r)
    (hans : r.answer = some ans)
    (hsuccess : ans.isSuccess = true) :
    ∃ filter, r = .metered ans (streamFlag (.object o)) filter meter := by
  unfold routeExternal at h
  split at h
  next =>
    obtain rfl := Except.ok.inj h
    cases hans
  next =>
    obtain ⟨body, -, h⟩ := Except.bind_eq_ok.mp h
    dsimp only at h
    split at h
    next =>
      obtain rfl := Except.ok.inj h
      obtain rfl := Option.some.inj hans
      exact ⟨_, rfl⟩
    next hfailed =>
      -- a failure is passed on as it is
      obtain rfl := Except.ok.inj h
      obtain rfl := Option.some.inj hans
      exact absurd hsuccess hfailed

/-- What the branch for a function makes of a request. -/
theorem routeFunccall_metered (hserde : SerdeOk serde) {body : ByteArray} {o : Object}
    {modelName : String} {meter : TokenMeterCtx} (hread : serde.fromSlice body = some (.object o))
    (h : routeFunccall serde gw req (o.remove "model") modelName source meter = .ok r)
    (hans : r.answer = some ans) :
    ∃ filter, r = .metered ans (streamFlag (.object (o.remove "model"))) filter meter := by
  unfold routeFunccall at h
  split at h
  next =>
    obtain rfl := Except.ok.inj h
    cases hans
  next =>
    obtain ⟨body, hbody, h⟩ := Except.bind_eq_ok.mp h
    obtain ⟨w, hw, hflag⟩ := hserde.reread _ _ _ hread (orStatus_eq_ok.mp hbody)
    obtain ⟨⟨newReq, isStreaming, usageRequested⟩, hinject, h⟩ := Except.bind_eq_ok.mp h
    obtain ⟨ans', -, h⟩ := Except.bind_eq_ok.mp h
    obtain rfl := Except.ok.inj h
    obtain rfl := Option.some.inj hans
    have hstream : isStreaming = streamFlag w := injectUsageOptions_flag hw hinject
    exact ⟨_, by rw [hstream, hflag]⟩

/-- What is known of a request when its answer comes. -/
structure MeterOf (env : DispatchEnv) (req : Request) (source : SharedSource)
    (meter : TokenMeterCtx) :
    Prop where
  /-- the gateway's id -/
  gateway : meter.gatewayRequestId = env.uuid
  /-- the client's -/
  client : meter.clientRequestId = (req.header "x-request-id").bind toStr
  /-- the surface -/
  source : meter.source = source.asStr

/-- An answer of success is read in the form that the request tells. -/
theorem sharedEndpointRoute_metered (hserde : SerdeOk serde)
    (hv : serde.fromSlice req.body = some v)
    (h : sharedEndpointRoute serde gw env req callerTenant source = .ok r)
    (hans : r.answer = some ans)
    (hsuccess : ans.isSuccess = true) :
    ∃ filter meter, r = .metered ans (streamFlag v) filter meter ∧
    MeterOf env req source meter := by
  unfold sharedEndpointRoute at h
  obtain ⟨body, hbody, hread⟩ := Except.bind_eq_ok.mp h
  have hsame : body = req.body := by
    have hif := orStatus_eq_ok.mp hbody
    split at hif
    next => cases hif
    next => exact (Option.some.inj hif).symm
  rw [hsame, hv] at hread
  obtain ⟨o, ho, hrest⟩ : ∃ o, orStatus 400 v.asObject = .ok o ∧ _ := Except.bind_eq_ok.mp hread
  have hobject : v = .object o := by
    have hsome := orStatus_eq_ok.mp ho
    unfold Value.asObject at hsome
    split at hsome
    next => rw [Option.some.inj hsome]
    next => cases hsome
  obtain ⟨modelName, -, hbranch⟩ := Except.bind_eq_ok.mp hrest
  dsimp only at hbranch
  rw [hobject]
  split at hbranch
  next =>
    obtain rfl := Except.ok.inj hbranch
    cases hans
  next =>
    split at hbranch
    next =>
      obtain ⟨filter, hr⟩ := routeExternal_metered hbranch hans hsuccess
      rw [streamFlag_remove] at hr
      exact ⟨filter, _, hr, rfl, rfl, rfl⟩
    next =>
      obtain ⟨filter, hr⟩ := routeFunccall_metered hserde (hobject ▸ hv) hbranch hans
      rw [streamFlag_remove] at hr
      exact ⟨filter, _, hr, rfl, rfl, rfl⟩

/-! ## The row -/

variable {t : Table}

/-- One row more, with the counts of a usage object. -/
def MeteredRow (t t' : Table) (u : Object) : Prop :=
  ∃ id e, t[id]? = none ∧ t' = t.insert id e ∧
    e.promptTokens = (countOf u "prompt_tokens").toNat ∧
    e.completionTokens = (countOf u "completion_tokens").toNat ∧
    e.cachedTokens = (cachedOf u).toNat

/-- The counts of a usage object fit in 32 bits. -/
def SmallCounts (u : Object) : Prop :=
  (countOf u "prompt_tokens").toNat < 2 ^ 32 ∧ (countOf u "completion_tokens").toNat < 2 ^ 32 ∧
    (cachedOf u).toNat < 2 ^ 32

/-- The counts of `u` are those of `u'`, modulo 2 ^ 32. -/
def CountsAs (u' u : Object) : Prop :=
  (countOf u' "prompt_tokens").toNat % 2 ^ 32 = (countOf u "prompt_tokens").toNat ∧
    (countOf u' "completion_tokens").toNat % 2 ^ 32 = (countOf u "completion_tokens").toNat ∧
    (cachedOf u').toNat % 2 ^ 32 = (cachedOf u).toNat

theorem CountsAs.small {u' : Object} (h : CountsAs u' u) : SmallCounts u := by
  obtain ⟨hprompt, hcompletion, hcached⟩ := h
  unfold SmallCounts
  omega

theorem countsAs_self : CountsAs u u ↔ SmallCounts u := by
  unfold CountsAs SmallCounts
  omega

/-- No row is not one row more. -/
theorem not_meteredRow_self : ¬ MeteredRow t t u := by
  rintro ⟨id, e, hnone, hins, -⟩
  have hget := congrArg (fun m : Table => m[id]?) hins
  rw [hnone, BTreeMap.get_insert_self] at hget
  cases hget

theorem toUInt32_toNat_eq_iff (n m : UInt64) : ((n.toUInt32.toNat : ℕ) : ℤ) = m.toNat ↔
    n.toNat % 2 ^ 32 = m.toNat := by
  rw [UInt64.toNat_toUInt32]
  omega

theorem columnOpt_eq_ok {n : ℕ} {x : Option String} :
    (∃ y, columnOpt n x = .ok y) ↔ ∀ s, x = some s → (varchar n s).isSome = true := by
  rcases x with _ | s
  · simp [columnOpt]
  · simp only [columnOpt, column, Option.some.injEq, forall_eq']
    rcases varchar n s with _ | s'
    · simp [Except.map]
    · simp [Except.map]

theorem column_of_length {n : ℕ} {s : String} (h : s.toList.length ≤ n) : column n s = .ok s := by
  unfold column varchar
  rw [if_pos h]

theorem column_source (source : SharedSource) : column 16 source.asStr = .ok source.asStr := by
  cases source with
  | direct => rfl
  | openRouter => rfl

/-- An event that is inserted. -/
theorem audit_ok {t t' : Table} {e : TokenUsageEvent} (h : createTokenUsageEvent t e = .ok t') :
    audit {} t (some e) = t' := by
  simp [audit, h]

/-- An event that the database refuses. -/
theorem audit_error {t : Table} {e : TokenUsageEvent} {m : String}
    (h : createTokenUsageEvent t e = .error m) :
    audit {} t (some e) = t := by
  simp [audit, h]

/-- The event of `u'` stores a row with the counts of `u` exactly if these are those of `u'` modulo
2 ^ 32 and the client's id fits in its column. -/
theorem meteredRow_audit_iff {meter : TokenMeterCtx} {u' : Object}
    (hmeter : MeterOf env req source meter)
    (hid : env.uuid.toList.length ≤ 128) (hfresh : t[env.uuid]? = none) :
    MeteredRow t (audit {} t (some (eventOf meter u'))) u ↔
      CountsAs u' u ∧ ∀ s, (req.header "x-request-id").bind toStr = some s →
      (varchar 128 s).isSome = true := by
  rw [← columnOpt_eq_ok]
  have hcreate : createTokenUsageEvent t (eventOf meter u') = (do
      let clientRequestId ← columnOpt 128 ((req.header "x-request-id").bind toStr)
      return t.insert env.uuid { eventOf meter u' with
        gatewayRequestId := env.uuid, clientRequestId, source := source.asStr }) := by
    unfold createTokenUsageEvent
    have hg : (eventOf meter u').gatewayRequestId = env.uuid := hmeter.gateway
    have hc : (eventOf meter u').clientRequestId
      = (req.header "x-request-id").bind toStr := hmeter.client
    have hs : (eventOf meter u').source = source.asStr := hmeter.source
    rw [hg, hc, hs, column_of_length hid, column_source]
    change (columnOpt 128 _ >>= fun _ => _) = _
    congr 1
    funext c
    change (if t[env.uuid]?.isSome = true then _ else _) = _
    rw [hfresh, if_neg (by simp)]
  rcases hcol : columnOpt 128 ((req.header "x-request-id").bind toStr) with msg | c
  · -- the insert fails
    rw [audit_error (m := msg) (by rw [hcreate, hcol]; rfl)]
    simp only [reduceCtorEq, exists_false, and_false, iff_false]
    exact not_meteredRow_self
  · rw [audit_ok (by rw [hcreate, hcol]; rfl)]
    constructor
    · rintro ⟨id, e, hnone, hins, hp, hcomp, hcache⟩
      have hget := congrArg (fun m : Table => m[id]?) hins
      rw [BTreeMap.get_insert_self] at hget
      change (t.insert env.uuid _)[id]? = some e at hget
      rw [BTreeMap.get_insert] at hget
      split at hget
      next =>
        obtain rfl := Option.some.inj hget
        exact ⟨⟨(toUInt32_toNat_eq_iff _ _).mp hp, (toUInt32_toNat_eq_iff _ _).mp hcomp,
          (toUInt32_toNat_eq_iff _ _).mp hcache⟩, c, rfl⟩
      next =>
        rw [hnone] at hget
        cases hget
    · rintro ⟨⟨hp, hcomp, hcache⟩, -⟩
      exact ⟨env.uuid, _, hfresh, rfl, (toUInt32_toNat_eq_iff _ _).mpr hp,
        (toUInt32_toNat_eq_iff _ _).mpr hcomp,
        (toUInt32_toNat_eq_iff _ _).mpr hcache⟩

/-- The request and its answer are ones that are metered as they should. -/
structure MeteringOk (serde : Serde) (req : Request) (v : Value) (ans : Answer) (form : Form)
    (u : Object) : Prop where
  /-- the counts fit in 32 bits -/
  counts : SmallCounts u
  /-- the client's id fits in its column -/
  id : ∀ s, (req.header "x-request-id").bind toStr = some s → (varchar 128 s).isSome = true
  /-- the line of the usage has an end, or the usage before it has the same counts -/
  ended : form = .events → ∃ u', ans.endedUsage serde = some u' ∧ CountsAs u' u
  /-- the request tells the form of the answer -/
  form : streamFlag v = true ↔ form = .events

/-- **Metering.** A request that is answered with success and a usage object leaves
one row with the reported counts exactly if these fit in 32 bits, the client's id
fits in its column, the request tells the form of the answer, and in a stream the lines
that have an end report the counts. The frames of an answer that is read as a stream are
text each by itself. -/
theorem meteredRow_iff {form : Form} {resp : Response} {event : Option TokenUsageEvent}
    (hserde : SerdeOk serde) (hid : env.uuid.toList.length ≤ 128) (hfresh : t[env.uuid]? = none)
    (hv : serde.fromSlice req.body = some v)
    (hroute : sharedEndpointRoute serde gw env req callerTenant source = .ok r)
    (hans : r.answer = some ans)
    (hsuccess : ans.isSuccess = true) (hended : ans.Ended) (hu : ans.usage serde form = some u)
    (htext : streamFlag v = true → ans.TextFrames)
    (h : sharedEndpointDispatch serde gw env (fun _ => true) req callerTenant source = .ok
      (resp, event)) :
    MeteredRow t (audit {} t event) u ↔ MeteringOk serde req v ans form u := by
  obtain ⟨filter, meter, rfl, hmeter⟩ := sharedEndpointRoute_metered hserde hv hroute hans hsuccess
  have hevent : event = (ans.readUsage serde (if streamFlag v then .events else .whole)).map
    (eventOf meter) := by
    rw [← event_processUsageResponse hended htext]
    unfold sharedEndpointDispatch at h
    rw [hroute] at h
    exact (congrArg Prod.snd (Except.ok.inj h)).symm
  -- nothing is recorded, and the condition fails
  have hlost (hnone : event = none) (hnot : ¬ MeteringOk serde req v ans form u) :
      MeteredRow t (audit {} t event) u ↔ MeteringOk serde req v ans form u := by
    rw [hnone]
    exact ⟨fun h => absurd h not_meteredRow_self, fun h => absurd h hnot⟩
  by_cases hform : streamFlag v = true ↔ form = .events
  · -- the form is the one that is read
    have hread : (if streamFlag v then Form.events else Form.whole) = form := by
      cases form with
      | whole =>
        rw [if_neg]
        intro hflag
        cases hform.mp hflag
      | events => rw [if_pos (hform.mpr rfl)]
    rw [hread] at hevent
    cases form with
    | whole =>
      have hwhole : ans.readUsage serde .whole = some u := hu
      rw [hevent, hwhole, Option.map_some, meteredRow_audit_iff hmeter hid hfresh, countsAs_self]
      exact ⟨fun h => ⟨h.1, h.2, fun heq => (by cases heq), hform⟩, fun h => ⟨h.counts, h.id⟩⟩
    | events =>
      rcases hsome : ans.endedUsage serde with _ | u'
      · -- only the last line has a usage
        refine hlost ?_ fun hok => ?_
        · rw [hevent, Answer.readUsage, hsome, Option.map_none]
        · obtain ⟨_, hu', -⟩ := hok.ended rfl
          cases hsome.symm.trans hu'
      · rw [hevent, Answer.readUsage, hsome, Option.map_some, meteredRow_audit_iff hmeter hid hfresh]
        refine ⟨fun h => ⟨h.1.small, h.2, fun _ => ⟨u', hsome, h.1⟩, hform⟩, fun h => ⟨?_, h.id⟩⟩
        obtain ⟨u'', hu'', hcounts⟩ := h.ended rfl
        obtain rfl := Option.some.inj (hsome.symm.trans hu'')
        exact hcounts
  · -- the other form has no usage
    refine hlost ?_ fun hok => hform hok.form
    rw [hevent]
    cases form with
    | whole =>
      rw [if_pos (by simpa using hform), Answer.readUsage]
      rcases hsome : ans.endedUsage serde with _ | u'
      · rfl
      · have hevents : (ans.usage serde .events).isSome = true :=
          isSome_usage_of_ended (by rw [hsome]; rfl)
        rw [usage_exclusive hserde (by rw [hu]; rfl)] at hevents
        cases hevents
    | events =>
      rw [if_neg (by simpa using hform), Answer.readUsage]
      rcases hsome : ans.usage serde .whole with _ | u'
      · rfl
      · rw [usage_exclusive hserde (by rw [hsome]; rfl)] at hu
        cases hu

namespace Sample

/-- An answer with five prompt tokens. -/
def usageText : List Char := "\x7b\"usage\":\x7b\"prompt_tokens\":5\x7d\x7d".toList

/-- Its usage object. -/
def usage : Object := [("prompt_tokens", .number (.posInt 5))]

/-- An empty object. -/
def emptyBody : ByteArray := "\x7b\x7d".toUTF8

/-- A body that names a model. -/
def modelBody : ByteArray := "\x7b\"model\":\"m\"\x7d".toUTF8

/-- These texts are read and written. -/
def reader : Serde where
  fromSlice b :=
    if b = modelBody then some (.object [("model", .string "m")])
    else if b = emptyBody then some (.object [])
    else none
  fromStr text := if text = usageText then some (.object [("usage", .object usage)]) else none
  toVec v := match v with
    | .object [] => some emptyBody
    | _ => none

/-- The answer. -/
def answer : Answer := { status := 200, frames := [.data (bytesOf usageText)] }

/-- Every function gives this answer. -/
def gateway : HttpGateway where
  externalEndpoint _ := none
  published _ := true
  dispatchFailover _ _ _ _ := answer
  funccallDispatchRoute _ := .ok answer

/-- A request with some headers. -/
def request (headers : List (String × List UInt8)) : Request :=
  { path := "/v1/chat/completions", headers, body := modelBody }

/-- A dispatch. -/
def dispatchEnv : DispatchEnv := { uuid := "3f2a", requestTs := 0 }

/-- What is known of the request. -/
def meter (headers : List (String × List UInt8)) : TokenMeterCtx where
  gatewayRequestId := "3f2a"
  clientRequestId := ((request headers).header "x-request-id").bind toStr
  callerTenant := "t"
  modelSlug := "m"
  source := "direct"
  requestTs := 0

theorem serdeOk : SerdeOk reader where
  reread _ o b _ hb := by
    generalize Value.object (o.remove "model") = v at hb ⊢
    unfold reader at hb ⊢
    dsimp only at hb ⊢
    split at hb
    next =>
      obtain rfl := Option.some.inj hb
      have hne : emptyBody ≠ modelBody := toUTF8_ne (by decide)
      exact ⟨.object [], by rw [if_neg hne, if_pos rfl], rfl⟩
    next => cases hb
  noData text line hline hdata := by
    by_cases htext : text = usageText
    · have hnone : ∀ line ∈ usageText.splitOn '\n', dataOf (chomp line) = none := by
        have hlist : usageText = _ := String.toList_ofList
        rw [hlist]
        decide
      rw [hnone line (htext ▸ hline)] at hdata
      cases hdata
    · exact if_neg htext

theorem fromSlice_model : reader.fromSlice modelBody = some (.object [("model", .string "m")]) := by
  unfold reader
  dsimp only
  rw [if_pos rfl]

theorem fromSlice_empty : reader.fromSlice emptyBody = some (.object []) := by
  have hne : emptyBody ≠ modelBody := toUTF8_ne (by decide)
  unfold reader
  dsimp only
  rw [if_neg hne, if_pos rfl]

theorem route_request (headers : List (String × List UInt8)) :
    sharedEndpointRoute reader gateway dispatchEnv (request headers) "t" .direct =
      .ok (.metered answer false false (meter headers)) := by
  have hsize : ¬ maxBodyBytes < modelBody.size := by decide
  have hsize' : ¬ maxBodyBytes < emptyBody.size := by decide
  have hslug : ¬ isValidSlug "m" = false := by decide
  have hmodel : Object.get [("model", .string "m")] "model" = some (.string "m") := by rfl
  have hremove : Object.remove [("model", .string "m")] "model" = [] := by rfl
  have hvec : reader.toVec (.object []) = some emptyBody := rfl
  have hflag : streamFlag (.object []) = false := rfl
  simp [sharedEndpointRoute, request, hsize, hsize', fromSlice_model, fromSlice_empty, orStatus,
    Value.asObject,
    hmodel, Value.asStr, hslug, gateway, routeFunccall, hremove, hvec, injectUsageOptions, hflag,
    meter, dispatchEnv,
    SharedSource.asStr, bind, Except.bind, pure, Except.pure]

theorem usage_answer : answer.usage reader .whole = some usage := by
  have htext : fromUtf8 (collect answer.frames) = some usageText := by
    rw [fromUtf8_eq_some]
    simp [answer, collect, joined, bytesOf]
  have hread : reader.fromStr usageText = some (.object [("usage", .object usage)]) := by
    unfold reader
    dsimp only
    rw [if_pos rfl]
  simp only [Answer.usage, htext, Option.bind_some, usageOf, hread]
  rfl

theorem ended_answer : answer.Ended := by
  intro f hf
  obtain rfl := List.mem_singleton.mp hf
  exact ⟨_, rfl⟩

theorem dispatch_request (headers : List (String × List UInt8)) :
    sharedEndpointDispatch reader gateway dispatchEnv (fun _ => true)
    (request headers) "t" .direct =
      .ok ({ status := 200, body := [collect answer.frames] },
        some (eventOf (meter headers) usage)) := by
  have hevent : (processUsageResponse reader (fun _ => true) answer false false
    (some (meter headers))).2 =
      (answer.usage reader .whole).map _ := event_processUsageResponse ended_answer
      fun h => by cases h
  rw [usage_answer, Option.map_some] at hevent
  unfold sharedEndpointDispatch
  rw [route_request]
  exact congrArg Except.ok (Prod.ext rfl hevent)

end Sample

/-- A request without an id of its own is metered. -/
theorem meteredRow_without_id :
    MeteredRow ∅ (audit {} ∅ (some (eventOf (Sample.meter []) Sample.usage))) Sample.usage := by
  refine (meteredRow_iff Sample.serdeOk ?_ rfl Sample.fromSlice_model
    (Sample.route_request []) rfl rfl
    Sample.ended_answer Sample.usage_answer
    (fun h => by cases h) (Sample.dispatch_request [])).mpr ?_
  · decide +kernel
  · refine ⟨?_, ?_, fun hform => (by cases hform), ?_⟩
    · unfold SmallCounts
      decide +kernel
    · intro s hs
      cases hs
    · decide

/-- A request whose id has 129 characters is answered and not metered. -/
theorem long_id_unmetered : ¬ ∀ (serde : Serde) (gw : HttpGateway) (env : DispatchEnv) (t : Table)
    (req : Request)
    (callerTenant : String) (source : SharedSource) (r : Routed) (ans : Answer)
    (form : Form) (u : Object)
    (resp : Response) (event : Option TokenUsageEvent), SerdeOk serde →
    env.uuid.toList.length ≤ 128 →
    t[env.uuid]? = none → sharedEndpointRoute serde gw env req callerTenant source = .ok r →
    r.answer = some ans → ans.isSuccess = true → ans.Ended → ans.TextFrames →
    ans.usage serde form = some u →
    sharedEndpointDispatch serde gw env (fun _ => true) req callerTenant source
    = .ok (resp, event) →
    MeteredRow t (audit {} t event) u := by
  intro h
  have htext : Sample.answer.TextFrames := by
    intro b hb
    obtain rfl := Frame.data.inj (List.mem_singleton.mp hb)
    have hread : fromUtf8 (bytesOf Sample.usageText) = some Sample.usageText := by
      rw [fromUtf8_eq_some]
      simp [bytesOf]
    rw [hread]
    rfl
  have hrow := h Sample.reader Sample.gateway Sample.dispatchEnv ∅
    (Sample.request [("x-request-id",
      List.replicate 129 97)]) "t" .direct _ _ .whole _ _ _ Sample.serdeOk
    (by decide +kernel) rfl (Sample.route_request _) rfl rfl Sample.ended_answer htext Sample.usage_answer
    (Sample.dispatch_request _)
  have hmeter : MeterOf Sample.dispatchEnv
    (Sample.request [("x-request-id", List.replicate 129 97)]) .direct
      (Sample.meter [("x-request-id", List.replicate 129 97)]) := ⟨rfl, rfl, rfl⟩
  have hfits := ((meteredRow_audit_iff hmeter (by decide +kernel) rfl).mp hrow).2
    (String.ofList (List.replicate 129 'a')) (by decide +kernel)
  unfold varchar at hfits
  rw [String.toList_ofList, List.length_replicate] at hfits
  revert hfits
  decide

end Inferx.Gateway
