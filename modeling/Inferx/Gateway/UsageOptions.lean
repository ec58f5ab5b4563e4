import Inferx.Gateway.Framing

/-!
# Asking for the usage, and filtering it

A streamed request is sent on with `stream_options.include_usage`, so that its answer
ends with a usage. Where the caller did not ask for it, the lines of the answer that
carry a usage are taken out again. `stream_options` that are there and no object are
left as they are, and a line is taken out with all that it carries.

Of the JSON reader and writer it is used that everything can be written, and that what
is written is read back with its `include_usage` flag.
-/

namespace Inferx.Gateway

open Lines

variable {serde : Serde}

/-- What is used of the JSON reader and writer. -/
structure SerdeWrites (serde : Serde) : Prop where
  /-- everything is written -/
  writes : ∀ v, ∃ b, serde.toVec v = some b
  /-- what is read back, if it is not nested too deeply for that, has its flag -/
  reread : ∀ v w b, serde.toVec v = some b → serde.fromSlice b = some w → usageFlag w = usageFlag v
  /-- values with one text have one flag -/
  written : ∀ v v' b, serde.toVec v = some b → serde.toVec v' = some b → usageFlag v = usageFlag v'

/-! ## Bodies that ask for the usage -/

/-- An option of the stream. -/
def optionOf (o : Object) (key : String) : Option Value :=
  ((o.get "stream_options").bind Value.asObject).bind fun so => so.get key

/-- `o'` asks for the usage, and is else like `o` but for the keys `skip`. -/
structure AsksUsage (skip : List String) (o o' : Object) : Prop where
  /-- it asks -/
  asks : usageFlag (.object o') = true
  /-- the other entries -/
  same : ∀ key, key ≠ "stream_options" → key ∉ skip → o'.get key = o.get key
  /-- the other options -/
  options : ∀ key, key ≠ "include_usage" → optionOf o' key = optionOf o key

/-- The body is a JSON text of the object. -/
def IsText (serde : Serde) (body : ByteArray) (o : Object) : Prop :=
  serde.toVec (.object o) = some body ∨ serde.fromSlice body = some (.object o)

/-- The body asks for the usage, and is else like `o` but for the keys `skip`. -/
def SendsUsage (serde : Serde) (skip : List String) (o : Object) (body : ByteArray) : Prop :=
  ∃ o', IsText serde body o' ∧ AsksUsage skip o o'

/-- `stream_options` are an object if they are there. -/
def OptionsFit (o : Object) : Prop := ∀ so, o.get "stream_options" = some so → ∃ m, so = .object m

theorem get_insert (o : Object) (key k : String) (v : Value) :
    (o.insert key v).get k = if k = key then some v else o.get k := by
  by_cases hk : k = key
  · subst hk
    rw [if_pos rfl]
    simp [Object.insert, Object.get]
  · have hne : ¬ ((key, v).1 == k) = true := fun h => hk (beq_iff_eq.mp h).symm
    have hskip : (o.insert key v).get k = (o.remove key).get k := by
      unfold Object.insert Object.get
      rw [List.find?_cons_of_neg (p := fun e : String × Value => e.1 == k) hne]
    rw [if_neg hk, hskip, get_remove hk]

theorem usageFlag_eq (o : Object) :
    usageFlag (.object o) = ((optionOf o "include_usage").bind Value.asBool).getD false := by
  have hget : (Value.object o).get "stream_options" = o.get "stream_options" := rfl
  unfold usageFlag optionOf
  rw [hget]
  rcases o.get "stream_options" with _ | so
  · rfl
  · rfl

theorem optionOf_congr {o o' : Object} (h : o.get "stream_options" = o'.get "stream_options")
    (key : String) : optionOf o key = optionOf o' key := by
  unfold optionOf
  rw [h]

theorem usageFlag_congr {o o' : Object} (h : o.get "stream_options" = o'.get "stream_options") :
    usageFlag (.object o) = usageFlag (.object o') := by
  rw [usageFlag_eq, usageFlag_eq, optionOf_congr h]

/-- What asks already. -/
theorem asksUsage_self {o : Object} (h : usageFlag (.object o) = true) : AsksUsage [] o o :=
  ⟨h, fun _ _ _ => rfl, fun _ _ => rfl⟩

/-- What asks has options. -/
theorem optionsFit_of_flag {o : Object} (h : usageFlag (.object o) = true) : OptionsFit o := by
  intro so hso
  rw [usageFlag_eq] at h
  unfold optionOf at h
  rw [hso, Option.bind_some] at h
  cases so with
  | object m => exact ⟨m, rfl⟩
  | _ => cases h

/-- Options are asked for the usage. -/
theorem asksUsage_inject {o : Object} (h : OptionsFit o) : AsksUsage [] o (injectUsage o) := by
  obtain ⟨m, hm, hoptions⟩ : ∃ m, (o.get "stream_options").getD (.object []) = .object m ∧
      ∀ key, optionOf o key = Object.get m key := by
    unfold optionOf
    rcases hso : o.get "stream_options" with _ | so
    · exact ⟨[], rfl, fun key => rfl⟩
    · obtain ⟨m, rfl⟩ := h so hso
      exact ⟨m, rfl, fun key => rfl⟩
  have hinject : injectUsage o
      = o.insert "stream_options" (.object (Object.insert m "include_usage" (.bool true))) := by
    unfold injectUsage
    rw [hm]
  have hoption : ∀ key, optionOf (injectUsage o) key
      = (Object.insert m "include_usage" (.bool true)).get key := fun key => by
    unfold optionOf
    rw [hinject, get_insert, if_pos rfl]
    rfl
  refine ⟨?_, fun key hkey _ => ?_, fun key hkey => ?_⟩
  · rw [usageFlag_eq, hoption, get_insert, if_pos rfl]
    rfl
  · rw [hinject, get_insert, if_neg hkey]
  · rw [hoption, get_insert, if_neg hkey, hoptions]

/-- Other values are left. -/
theorem injectUsage_unfit {o : Object} (h : ¬ OptionsFit o) : injectUsage o = o := by
  unfold OptionsFit at h
  push Not at h
  obtain ⟨so, hso, hne⟩ := h
  unfold injectUsage
  rw [hso, Option.getD_some]
  cases so with
  | object m => exact absurd rfl (hne m)
  | _ => rfl

/-- What the two branches write. -/
def askedObject (o : Object) : Object :=
  if streamFlag (.object o) && !usageFlag (.object o) then injectUsage o else o

theorem asksUsage_iff {o : Object} (hstream : streamFlag (.object o) = true) :
    AsksUsage [] o (askedObject o) ↔ OptionsFit o := by
  unfold askedObject
  rw [hstream, Bool.true_and]
  by_cases hflag : usageFlag (.object o) = true
  · rw [hflag]
    exact ⟨fun _ => optionsFit_of_flag hflag, fun _ => asksUsage_self hflag⟩
  · rw [Bool.not_eq_true] at hflag
    rw [hflag]
    refine ⟨fun h => Classical.byContradiction fun hnot => ?_, asksUsage_inject⟩
    have hasks := h.asks
    rw [Bool.not_false, if_pos rfl, injectUsage_unfit hnot, hflag] at hasks
    cases hasks

/-- The objects of a text have one flag. -/
theorem IsText.flag (hserde : SerdeWrites serde) {o o' : Object} {body : ByteArray}
    (h : IsText serde body o) (h' : IsText serde body o') :
    usageFlag (.object o) = usageFlag (.object o') := by
  rcases h with hvec | hslice
  · rcases h' with hvec' | hslice'
    · exact hserde.written _ _ _ hvec hvec'
    · exact (hserde.reread _ _ _ hvec hslice').symm
  · rcases h' with hvec' | hslice'
    · exact hserde.reread _ _ _ hvec' hslice
    · rw [Option.some.inj (hslice.symm.trans hslice')]

/-- What is sent asks for the usage, whatever object it is a text of. -/
theorem SendsUsage.flag (hserde : SerdeWrites serde) {skip : List String} {o o' : Object}
    {body : ByteArray}
    (h : SendsUsage serde skip o body) (htext : IsText serde body o') :
    usageFlag (.object o') = true := by
  obtain ⟨asked, hasked, hasks⟩ := h
  rw [← hasked.flag hserde htext, hasks.asks]

theorem usageFlag_asked {o : Object} (h : ¬ OptionsFit o) :
    usageFlag (.object (askedObject o)) = false := by
  have hflag : usageFlag (.object o) = false :=
    Bool.eq_false_iff.mpr fun hflag => h (optionsFit_of_flag hflag)
  unfold askedObject
  split
  · rw [injectUsage_unfit h, hflag]
  · exact hflag

/-- `inject_usage_options` sends what asks for the usage. -/
theorem injectUsageOptions_iff (hserde : SerdeWrites serde) {req : Request} {o : Object}
    {out : Request × Bool × Bool} (hbody : serde.fromSlice req.body = some (.object o))
    (hstream : streamFlag (.object o) = true) (hout : injectUsageOptions serde req = .ok out) :
    SendsUsage serde [] o out.1.body ↔ OptionsFit o := by
  have hsent : IsText serde out.1.body (askedObject o) := by
    unfold injectUsageOptions at hout
    split at hout
    next => cases hout
    next =>
      rw [hbody] at hout
      simp only [hstream, if_true, Bool.true_and] at hout
      unfold askedObject
      rw [hstream, Bool.true_and]
      split at hout
      next hflag =>
        obtain ⟨b, hb⟩ := hserde.writes (.object (injectUsage o))
        have hvalue : (((Value.object o).asObject.map
          fun o => Value.object (injectUsage o)).getD (.object o))
            = .object (injectUsage o) := rfl
        rw [hvalue, hb, Option.getD_some] at hout
        obtain rfl := Except.ok.inj hout
        rw [if_pos hflag]
        exact .inl hb
      next hflag =>
        obtain rfl := Except.ok.inj hout
        rw [if_neg hflag]
        exact .inr hbody
  constructor
  · intro h
    refine Classical.byContradiction fun hnot => ?_
    have hflag := h.flag hserde hsent
    rw [usageFlag_asked hnot] at hflag
    cases hflag
  · intro h
    exact ⟨_, hsent, (asksUsage_iff hstream).mpr h⟩

/-! ## The external branch -/

/-- Whatever the gateway, as long as it has the endpoint `ext` for all models, the upstream is
sent this body. -/
def SentExternally (serde : Serde) (env : DispatchEnv) (req : Request) (callerTenant : String)
    (source : SharedSource) (ext : ExternalEndpoint) (body : ByteArray) : Prop :=
  ∀ gw : HttpGateway, (∀ name, gw.externalEndpoint name = some ext) →
    ∃ r, sharedEndpointRoute serde gw env req callerTenant source = .ok r ∧
      r.answer = some (gw.dispatchFailover ext callerTenant (externalSubPath req.path) body)

/-- What the external branch writes. -/
def externalObject (ext : ExternalEndpoint) (o : Object) : Object :=
  (askedObject (o.remove "model")).insert "model" (.string ext.upstreamModel)

/-- The branch reads the usage only of a stream. -/
theorem askedObject_eq (o : Object) :
    (if (streamFlag (.object o) && !(if streamFlag (.object o) = true then usageFlag (.object o)
      else true)) = true then injectUsage o else o) = askedObject o := by
  unfold askedObject
  by_cases hstream : streamFlag (.object o) = true
  · rw [hstream, if_pos rfl]
  · rw [Bool.not_eq_true] at hstream
    rw [hstream]
    rfl

theorem options_remove (o : Object) :
    (o.remove "model").get "stream_options" = o.get "stream_options" :=
  get_remove (by decide)

theorem options_external (ext : ExternalEndpoint) (o : Object) :
    (externalObject ext o).get "stream_options"
    = (askedObject (o.remove "model")).get "stream_options" := by
  unfold externalObject
  rw [get_insert, if_neg (by decide)]

theorem optionsFit_remove {o : Object} : OptionsFit (o.remove "model") ↔ OptionsFit o := by
  unfold OptionsFit
  rw [options_remove]

/-- A gateway whose upstream echoes the body. -/
def echo (ext : ExternalEndpoint) : HttpGateway where
  externalEndpoint _ := some ext
  published _ := true
  dispatchFailover _ _ _ body := { status := 200, frames := [.data body] }
  funccallDispatchRoute _ := .error 404

theorem sentExternally_written {env : DispatchEnv} {req : Request} {callerTenant : String}
    {source : SharedSource} {ext : ExternalEndpoint} {body : ByteArray} {o : Object}
    (hbody : serde.fromSlice req.body = some (.object o))
    (h : SentExternally serde env req callerTenant source ext body) :
    serde.toVec (.object (externalObject ext o)) = some body := by
  obtain ⟨r, hroute, hans⟩ := h (echo ext) fun _ => rfl
  unfold sharedEndpointRoute at hroute
  obtain ⟨b, hb, hread⟩ := Except.bind_eq_ok.mp hroute
  obtain ⟨v, hv, hobject⟩ := Except.bind_eq_ok.mp hread
  obtain ⟨o', ho', hmodel⟩ := Except.bind_eq_ok.mp hobject
  obtain ⟨m, hm, hbranch⟩ := Except.bind_eq_ok.mp hmodel
  have hb' : b = req.body := by
    rw [orStatus_eq_ok] at hb
    split at hb
    next => cases hb
    next => exact (Option.some.inj hb).symm
  have hv' : v = .object o := by
    rw [orStatus_eq_ok, hb', hbody] at hv
    exact (Option.some.inj hv).symm
  have ho : o' = o := by
    rw [orStatus_eq_ok, hv'] at ho'
    exact (Option.some.inj ho').symm
  rw [ho] at hbranch
  dsimp only at hbranch
  split at hbranch
  next =>
    obtain rfl := Except.ok.inj hbranch
    cases hans
  next =>
    have hext : (echo ext).externalEndpoint m = some ext := rfl
    rw [hext] at hbranch
    unfold routeExternal at hbranch
    dsimp only at hbranch
    split at hbranch
    next =>
      obtain rfl := Except.ok.inj hbranch
      cases hans
    next =>
      obtain ⟨written, hwritten, hanswer⟩ := Except.bind_eq_ok.mp hbranch
      rw [orStatus_eq_ok] at hwritten
      have hsent : written = body := by
        split at hanswer
        next =>
          obtain rfl := Except.ok.inj hanswer
          cases hans
          rfl
        next =>
          obtain rfl := Except.ok.inj hanswer
          cases hans
          rfl
      rw [← hsent, ← hwritten]
      unfold externalObject
      rw [← askedObject_eq]

theorem asksUsage_external {ext : ExternalEndpoint} {o : Object}
    (hstream : streamFlag (.object o) = true)
    (h : OptionsFit o) : AsksUsage ["model"] o (externalObject ext o) := by
  have hasks := (asksUsage_iff ((streamFlag_remove o).trans hstream)).mpr (optionsFit_remove.mpr h)
  refine ⟨?_, fun key hkey hskip => ?_, fun key hkey => ?_⟩
  · rw [usageFlag_congr (options_external ext o)]
    exact hasks.asks
  · have hne : key ≠ "model" := fun heq => hskip (List.mem_singleton.mpr heq)
    unfold externalObject
    rw [get_insert, if_neg hne, hasks.same key hkey List.not_mem_nil, get_remove hne]
  · rw [optionOf_congr (options_external ext o), hasks.options key hkey,
      optionOf_congr (options_remove o)]

/-- The external branch sends what asks for the usage. -/
theorem external_iff (hserde : SerdeWrites serde) {env : DispatchEnv} {req : Request}
    {callerTenant : String}
    {source : SharedSource} {ext : ExternalEndpoint} {body : ByteArray} {o : Object}
    (hbody : serde.fromSlice req.body = some (.object o)) (hstream : streamFlag (.object o) = true)
    (hsent : SentExternally serde env req callerTenant source ext body) :
    SendsUsage serde ["model"] o body ↔ OptionsFit o := by
  have htext : IsText serde body (externalObject ext o) := .inl (sentExternally_written hbody hsent)
  constructor
  · intro h
    refine Classical.byContradiction fun hnot => ?_
    have hnot' : ¬ OptionsFit (o.remove "model") := fun h => hnot (optionsFit_remove.mp h)
    have hflag := h.flag hserde htext
    rw [usageFlag_congr (options_external ext o), usageFlag_asked hnot'] at hflag
    cases hflag
  · intro h
    exact ⟨_, htext, asksUsage_external hstream h⟩

/-- A model's endpoint is sent what is written for it. -/
theorem sentExternally_of {env : DispatchEnv} {req : Request} {callerTenant m : String}
    {source : SharedSource} {ext : ExternalEndpoint} {body : ByteArray} {o : Object}
    (hsize : ¬ maxBodyBytes < req.body.size) (hbody : serde.fromSlice req.body = some (.object o))
    (hmodel : o.get "model" = some (.string m)) (hslug : isValidSlug m = true)
    (hpublished : ¬ (source = .direct ∧ ext.published = false))
    (hwritten : serde.toVec (.object (externalObject ext o)) = some body) :
    SentExternally serde env req callerTenant source ext body := by
  intro gw hext
  have hslug' : ¬ isValidSlug m = false := by
    rw [hslug]
    decide
  have hroute : ∃ r, routeExternal serde gw ext req (o.remove "model") callerTenant source
      { gatewayRequestId := env.uuid
        clientRequestId := (req.header "x-request-id").bind toStr
        callerTenant
        modelSlug := m
        source := source.asStr
        requestTs := env.requestTs } = .ok r ∧
      r.answer = some (gw.dispatchFailover ext callerTenant (externalSubPath req.path) body) := by
    unfold routeExternal
    unfold externalObject at hwritten
    rw [if_neg hpublished]
    simp only [askedObject_eq, hwritten, orStatus, Except.ok_bind]
    split
    · exact ⟨_, rfl, rfl⟩
    · exact ⟨_, rfl, rfl⟩
  obtain ⟨r, hr, hans⟩ := hroute
  refine ⟨r, ?_, hans⟩
  unfold sharedEndpointRoute
  simp only [if_neg hsize, orStatus, hbody, Except.ok_bind, Value.asObject, hmodel,
    Option.bind_some,
    Value.asStr, if_neg hslug', hext]
  exact hr

/-! ## Content that is filtered -/

/-- Does the line bring a part of the answer? -/
def isContent (serde : Serde) (line : List Char) : Bool :=
  ((dataOf (chomp line)).bind fun json =>
    ((serde.fromStr json).bind Value.asObject).bind fun o => o.get "choices").any fun choices =>
      match choices with
      | .array l => !l.isEmpty
      | _ => false

/-- All lines of the stream that bring a part of the answer are among the lines that the client
is sent, in their order. -/
def ForwardsContent (serde : Serde) (filter broken : Bool) (meter : Option TokenMeterCtx)
    (bs : List ByteArray) (text : List Char) : Prop :=
  ∃ sent : List Char, (metered serde filter broken meter bs).1 = sent.utf8Encode ∧
    (((drain text).1.filter (isContent serde)).map chomp).Sublist (drain sent).1

/-- Is the line passed on? -/
def keeps (serde : Serde) (filter : Bool) (line : List Char) : Bool :=
  !(filter && (lineUsage serde line).isSome)

theorem flatMap_passLine (filter : Bool) (lines : List (List Char)) :
    lines.flatMap (passLine serde filter)
      = ((lines.filter (keeps serde filter)).map chomp).flatMap fun line => line ++ ['\n'] := by
  induction lines with
  | nil => rfl
  | cons line lines ih =>
    rw [List.flatMap_cons, ih]
    unfold passLine
    by_cases h : (filter && (lineUsage serde line).isSome) = true
    · have hkeeps : ¬ keeps serde filter line = true := by simp [keeps, h]
      rw [if_pos h, List.filter_cons_of_neg hkeeps, List.nil_append]
    · have hkeeps : keeps serde filter line = true := by simp [keeps, h]
      rw [if_neg h, List.filter_cons_of_pos hkeeps, List.map_cons, List.flatMap_cons]

theorem chomp_subset (line : List Char) : ∀ c ∈ chomp line, c ∈ line := by
  unfold chomp
  split
  · exact fun c h => List.mem_of_mem_dropLast h
  · exact fun c h => h

/-- What a line brings is told by the line without its carriage return. -/
theorem lineUsage_congr {line line' : List Char} (h : chomp line = chomp line') :
    lineUsage serde line = lineUsage serde line' := by
  unfold lineUsage
  rw [h]

/-- What the client is sent of a stream of text. -/
theorem drain_metered (serde : Serde) {bs : List ByteArray} {text : List Char}
    (filter broken : Bool)
    (meter : Option TokenMeterCtx) (hbs : ∀ b ∈ bs, (fromUtf8 b).isSome = true)
    (htext : concat bs = text.utf8Encode) :
    ∃ sent : List Char, (metered serde filter broken meter bs).1 = sent.utf8Encode ∧
      (drain sent).1 = ((drain text).1.filter (keeps serde filter)).map chomp := by
  have hwhole : Texts ([concat bs].map .data) [text] :=
    .cons ⟨_, rfl, fromUtf8_eq_some.mpr htext⟩ .nil
  have hlines : ∀ line ∈ ((drain text).1.filter (keeps serde filter)).map chomp, '\n' ∉ line := by
    intro line hline
    obtain ⟨line', hmem, rfl⟩ := List.mem_map.mp hline
    exact fun h => newline_not_mem text line' (List.mem_of_mem_filter hmem) (chomp_subset line' _ h)
  have hleft : (drain (if broken then [] else (drain text).2)).1 = [] := by
    split
    · rfl
    · exact drain_left text
  refine ⟨(drain text).1.flatMap (passLine serde filter) ++ if broken then []
    else (drain text).2, ?_, ?_⟩
  · have hrest : (if broken then ByteArray.empty else bytesOf (drain text).2)
        = (if broken then [] else (drain text).2).utf8Encode := by
      cases broken
      · exact bytesOf_eq _
      · exact List.utf8Encode_nil.symm
    rw [List.utf8Encode_append, ← hrest, ← bytesOf_eq, frameFree_of_text hbs filter broken meter,
      streamed_texts hwhole, List.flatten_singleton]
  · rw [flatMap_passLine, drain_flatMap hlines, hleft, List.append_nil]

/-- Content is forwarded exactly if the filter is off, or no content comes with a usage. -/
theorem forwardsContent_iff {bs : List ByteArray} {text : List Char} (filter broken : Bool)
    (meter : Option TokenMeterCtx) (hbs : ∀ b ∈ bs, (fromUtf8 b).isSome = true)
    (htext : concat bs = text.utf8Encode) : ForwardsContent serde filter broken meter bs text ↔
      filter = false ∨ ∀ line ∈ (drain text).1, isContent serde line = true →
      lineUsage serde line = none := by
  obtain ⟨sent, hsent, hlines⟩ := drain_metered serde filter broken meter hbs htext
  constructor
  · rintro ⟨sent', hsent', hsub⟩
    have hsame : sent' = sent := by
      have hread : fromUtf8 (metered serde filter broken meter bs).1 = some sent :=
        fromUtf8_eq_some.mpr hsent
      rw [fromUtf8_eq_some.mpr hsent'] at hread
      exact Option.some.inj hread
    rw [hsame, hlines] at hsub
    refine Classical.or_iff_not_imp_left.mpr fun hfilter line hline hcontent => ?_
    -- a line that is kept tells as much as this one
    have hmem := hsub.subset (List.mem_map_of_mem (List.mem_filter.mpr ⟨hline, hcontent⟩))
    obtain ⟨line', hmem', hchomp⟩ := List.mem_map.mp hmem
    have hkeeps := (List.mem_filter.mp hmem').2
    unfold keeps at hkeeps
    rw [Bool.not_eq_false _ |>.mp hfilter, Bool.true_and, lineUsage_congr hchomp] at hkeeps
    rcases husage : lineUsage serde line with _ | u
    · rfl
    · rw [husage] at hkeeps
      cases hkeeps
  · intro h
    refine ⟨sent, hsent, ?_⟩
    rw [hlines]
    refine List.Sublist.map chomp ?_
    have hkeeps : ∀ line ∈ (drain text).1, isContent serde line = true →
        keeps serde filter line = true := fun line hline hcontent => by
      unfold keeps
      rcases h with hfilter | hnone
      · rw [hfilter]
        rfl
      · rw [hnone line hline hcontent, Option.isSome_none, Bool.and_false]
        rfl
    have hboth : (drain text).1.filter (isContent serde)
        = ((drain text).1.filter (keeps serde filter)).filter (isContent serde) := by
      rw [List.filter_filter]
      refine List.filter_congr fun line hline => ?_
      rcases hcontent : isContent serde line with _ | _
      · rfl
      · rw [hkeeps line hline hcontent]
        rfl
    rw [hboth]
    exact List.filter_sublist

/-! ## Streamed requests -/

/-- **Streamed requests are metered and their content is forwarded**: the bodies that are sent on
ask for the usage, and are else as they were, exactly if `stream_options` are no other value than
an object; and the content of a stream whose frames are text is forwarded exactly if the usage is
not filtered, or no line with content has a usage. -/
theorem streamed_iff (hserde : SerdeWrites serde) :
    (∀ (req : Request) (o : Object) (out : Request × Bool × Bool),
      serde.fromSlice req.body = some (.object o) → streamFlag (.object o) = true →
      injectUsageOptions serde req = .ok out →
      (SendsUsage serde [] o out.1.body ↔ OptionsFit o)) ∧
    (∀ (env : DispatchEnv) (req : Request) (callerTenant : String) (source : SharedSource)
      (ext : ExternalEndpoint) (body : ByteArray) (o : Object),
      serde.fromSlice req.body = some (.object o) → streamFlag (.object o) = true →
      SentExternally serde env req callerTenant source ext body →
      (SendsUsage serde ["model"] o body ↔ OptionsFit o)) ∧
    ∀ (filter broken : Bool) (meter : Option TokenMeterCtx) (bs : List ByteArray)
    (text : List Char),
      (∀ b ∈ bs, (fromUtf8 b).isSome = true) → concat bs = text.utf8Encode →
      (ForwardsContent serde filter broken meter bs text ↔ filter = false ∨
        ∀ line ∈ (drain text).1, isContent serde line = true → lineUsage serde line = none) := by
  refine ⟨fun req o out hbody hstream hout => ?_,
    fun env req ct src ext body o hbody hstream hsent => ?_,
    fun filter broken meter bs text hbs htext => ?_⟩
  · exact injectUsageOptions_iff hserde hbody hstream hout
  · exact external_iff hserde hbody hstream hsent
  · exact forwardsContent_iff filter broken meter hbs htext

/-- A request that is not too large is sent on. -/
theorem injectUsageOptions_ok (serde : Serde) (req : Request) (h : ¬ maxBodyBytes < req.body.size) :
    ∃ out, injectUsageOptions serde req = .ok out := by
  unfold injectUsageOptions
  rw [if_neg h]
  rcases serde.fromSlice req.body with _ | v
  · exact ⟨_, rfl⟩
  · dsimp only
    generalize (if streamFlag v = true then usageFlag v else true) = usageEnabled
    split
    · exact ⟨_, rfl⟩
    · exact ⟨_, rfl⟩

namespace Sample

/-- A streamed request. -/
def streamBody : ByteArray := "\x7b\"stream\":true\x7d".toUTF8

/-- A streamed request for a model. -/
def modelStreamBody : ByteArray := "\x7b\"model\":\"m\",\"stream\":true\x7d".toUTF8

/-- A streamed request whose options are `null`. -/
def nullBody : ByteArray := "\x7b\"stream\":true,\"stream_options\":null\x7d".toUTF8

/-- A streamed request that asks for the usage. -/
def askedBody : ByteArray :=
  "\x7b\"stream\":true,\"stream_options\":\x7b\"include_usage\":true\x7d\x7d".toUTF8

/-- A streamed request for a provider's model that asks for the usage. -/
def providerBody : ByteArray :=
  "\x7b\"model\":\"p\",\"stream\":true,\"stream_options\":\x7b\"include_usage\":true\x7d\x7d".toUTF8

/-- An option that asks for the usage. -/
def asked : Value := .object [("include_usage", .bool true)]

/-- A line with content and a usage. -/
def chunkText : List Char := "\x7b\"choices\":[\x7b\x7d],\"usage\":\x7b\"prompt_tokens\":5\x7d\x7d".toList

/-- These texts are read, and three of them written. -/
def writer : Serde where
  fromSlice b :=
    if b = askedBody then some (.object [("stream", .bool true), ("stream_options", asked)])
    else if b = providerBody then
      some (.object [("model", .string "p"), ("stream", .bool true), ("stream_options", asked)])
    else if b = nullBody then some (.object [("stream", .bool true), ("stream_options", .null)])
    else if b = streamBody then some (.object [("stream", .bool true)])
    else if b = modelStreamBody then some (.object [("model", .string "m"), ("stream", .bool true)])
    else none
  fromStr text :=
    if text = chunkText then some (.object
      [("choices", .array [.object []]), ("usage", .object usage)])
    else none
  toVec v := some (if usageFlag v then if (v.get "model").isSome then providerBody else askedBody
    else nullBody)

theorem writer_asked : writer.fromSlice askedBody
    = some (.object [("stream", .bool true), ("stream_options", asked)]) := by
  unfold writer
  dsimp only
  rw [if_pos rfl]

theorem writer_provider : writer.fromSlice providerBody
    = some (.object [("model", .string "p"), ("stream", .bool true),
      ("stream_options", asked)]) := by
  have hasked : providerBody ≠ askedBody := toUTF8_ne (by decide)
  unfold writer
  dsimp only
  rw [if_neg hasked, if_pos rfl]

theorem writer_null : writer.fromSlice nullBody
    = some (.object [("stream", .bool true), ("stream_options", .null)]) := by
  have hasked : nullBody ≠ askedBody := toUTF8_ne (by decide)
  have hprovider : nullBody ≠ providerBody := toUTF8_ne (by decide)
  unfold writer
  dsimp only
  rw [if_neg hasked, if_neg hprovider, if_pos rfl]

theorem writer_stream : writer.fromSlice streamBody = some (.object [("stream", .bool true)]) := by
  have hasked : streamBody ≠ askedBody := toUTF8_ne (by decide)
  have hprovider : streamBody ≠ providerBody := toUTF8_ne (by decide)
  have hnull : streamBody ≠ nullBody := toUTF8_ne (by decide)
  unfold writer
  dsimp only
  rw [if_neg hasked, if_neg hprovider, if_neg hnull, if_pos rfl]

theorem writer_model : writer.fromSlice modelStreamBody
    = some (.object [("model", .string "m"), ("stream", .bool true)]) := by
  have hasked : modelStreamBody ≠ askedBody := toUTF8_ne (by decide)
  have hprovider : modelStreamBody ≠ providerBody := toUTF8_ne (by decide)
  have hnull : modelStreamBody ≠ nullBody := toUTF8_ne (by decide)
  have hstream : modelStreamBody ≠ streamBody := toUTF8_ne (by decide)
  unfold writer
  dsimp only
  rw [if_neg hasked, if_neg hprovider, if_neg hnull, if_neg hstream, if_pos rfl]

theorem writer_flag {v : Value} {b : ByteArray} (hb : writer.toVec v = some b) :
    ∃ w, writer.fromSlice b = some w ∧ usageFlag w = usageFlag v := by
  have hb' : (if usageFlag v = true then if (v.get "model").isSome = true then providerBody
    else askedBody
      else nullBody) = b := Option.some.inj hb
  by_cases hflag : usageFlag v = true
  · rw [if_pos hflag] at hb'
    rw [hflag, ← hb']
    split
    · exact ⟨_, writer_provider, by decide⟩
    · exact ⟨_, writer_asked, by decide⟩
  · rw [if_neg hflag] at hb'
    rw [Bool.not_eq_true _ |>.mp hflag, ← hb']
    exact ⟨_, writer_null, by decide⟩

theorem serdeWrites : SerdeWrites writer where
  writes v := ⟨_, rfl⟩
  reread v w b hb hw := by
    obtain ⟨w', hw', hflag⟩ := writer_flag hb
    rw [Option.some.inj (hw.symm.trans hw'), hflag]
  written v v' b hb hb' := by
    obtain ⟨w, hw, hflag⟩ := writer_flag hb
    obtain ⟨w', hw', hflag'⟩ := writer_flag hb'
    rw [← hflag, Option.some.inj (hw.symm.trans hw'), hflag']

/-- The line. -/
def chunkLine : List Char := "data: ".toList ++ chunkText ++ ['\n']

/-- A request with the body. -/
def streamRequest (body : ByteArray) : Request :=
  { path := "/v1/chat/completions", headers := [], body }

/-- An endpoint that is open. -/
def openEndpoint : ExternalEndpoint := { slug := "m", upstreamModel := "p", published := true }

theorem dataOf_chunk : dataOf (chomp ("data: ".toList ++ chunkText)) = some chunkText := by
  have hlist : chunkText = _ := String.toList_ofList
  rw [hlist]
  exact dataOf_data (by decide) (by decide)

theorem fromStr_chunk : writer.fromStr chunkText
    = some (.object [("choices", .array [.object []]), ("usage", .object usage)]) := by
  unfold writer
  dsimp only
  rw [if_pos rfl]

theorem lineUsage_chunk : lineUsage writer ("data: ".toList ++ chunkText) = some usage := by
  have hdone : trim chunkText ≠ "[DONE]".toList := by
    have hlist : chunkText = _ := String.toList_ofList
    rw [hlist]
    decide +kernel
  unfold lineUsage
  rw [dataOf_chunk]
  simp only [if_neg hdone, usageOf, fromStr_chunk, Option.bind_some]
  rfl

theorem isContent_chunk : isContent writer ("data: ".toList ++ chunkText) = true := by
  unfold isContent
  rw [dataOf_chunk, Option.bind_some, fromStr_chunk]
  rfl

theorem drain_chunk : (drain chunkLine).1 = ["data: ".toList ++ chunkText] := by
  have hlist : chunkText = _ := String.toList_ofList
  have hdata : "data: ".toList = _ := String.toList_ofList
  unfold chunkLine
  rw [hlist, hdata]
  decide +kernel

theorem text_chunk : ∀ b ∈ [chunkLine.utf8Encode], (fromUtf8 b).isSome = true := by
  intro b hb
  rw [List.mem_singleton.mp hb, fromUtf8_eq_some.mpr rfl]
  rfl

theorem concat_chunk : concat [chunkLine.utf8Encode] = chunkLine.utf8Encode := by
  simp [concat]

end Sample

open Sample in
theorem streamed_iff_run :
    (∃ out, injectUsageOptions writer (streamRequest streamBody) = .ok out ∧
      SendsUsage writer [] [("stream", .bool true)] out.1.body) ∧
    (∃ body, SentExternally writer dispatchEnv
      (streamRequest modelStreamBody) "t" .direct openEndpoint body ∧
      SendsUsage writer ["model"] [("model", .string "m"), ("stream", .bool true)] body) ∧
    ForwardsContent writer false false none [chunkLine.utf8Encode] chunkLine := by
  refine ⟨?_, ?_, ((streamed_iff serdeWrites).2.2 _ _ _ _ _ text_chunk concat_chunk).mpr (.inl rfl)⟩
  · obtain ⟨out, hout⟩ := injectUsageOptions_ok writer (streamRequest streamBody)
      (by decide +kernel)
    refine ⟨out, hout, ((streamed_iff serdeWrites).1 _ _ _ writer_stream (by decide) hout).mpr ?_⟩
    intro so hso
    cases hso
  · have hsent : SentExternally writer dispatchEnv
      (streamRequest modelStreamBody) "t" .direct openEndpoint
        providerBody :=
      sentExternally_of (by decide +kernel) writer_model (by rfl) (by decide +kernel) (by decide) (by rfl)
    refine ⟨_, hsent, ((streamed_iff serdeWrites).2.1 _ _ _ _ _ _ _ writer_model
      (by decide) hsent).mpr ?_⟩
    intro so hso
    cases hso

open Sample in
/-- Options that are `null`, and content that comes with a usage. -/
theorem null_options_unmetered :
    (∃ out, injectUsageOptions writer (streamRequest nullBody) = .ok out ∧
      ¬ SendsUsage writer [] [("stream", .bool true), ("stream_options", .null)] out.1.body) ∧
    ¬ ForwardsContent writer true false none [chunkLine.utf8Encode] chunkLine := by
  constructor
  · obtain ⟨out, hout⟩ := injectUsageOptions_ok writer (streamRequest nullBody) (by decide +kernel)
    refine ⟨out, hout, fun h => ?_⟩
    obtain ⟨m, hm⟩ := (injectUsageOptions_iff serdeWrites writer_null
      (by decide) hout).mp h .null rfl
    cases hm
  · intro h
    rcases (forwardsContent_iff true false none text_chunk concat_chunk).mp h with hfilter | hnone
    · cases hfilter
    · rw [drain_chunk] at hnone
      have husage := hnone _ List.mem_cons_self isContent_chunk
      rw [lineUsage_chunk] at husage
      cases husage

end Inferx.Gateway
