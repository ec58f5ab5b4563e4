import Inferx.Skill.Sse

/-!
# What readers make of a trace

A stream in chunks is read like its lines. A body is written behind one `data:`, so a
line feed in it starts a line that the parser does not know: what is read is the first
line of the body. And each chunk is read as text by itself, so a chunk that ends inside
a character is not read as what was written.
-/

namespace Inferx.Skill

open Inferx.Lines

/-! ## Lines and events -/

/-- The events of some lines: comments are no events. -/
def SseParser.events (p : SseParser) :
    List (List Char) → SseParser × List (Option (List Char) × List Char)
  | [] => (p, [])
  | line :: lines =>
    let (p', message) := p.pushLine (chomp line)
    let (p'', evs) := p'.events lines
    (p'', (match message with
      | some (.event event data) => [(event, data)]
      | _ => []) ++ evs)

section Reader

variable {S E : Type} {Value : Type} {codec : Codec Value} {R : Reader S E}

/-- The events one by one. -/
def Reader.run (R : Reader S E) (s : S)
    (evs : List (Option (List Char) × List Char)) : Except E S :=
  evs.foldlM (fun s e => R.handle s (.event e.1 e.2)) s

theorem Reader.run_cons (s : S) (e : Option (List Char) × List Char)
    (evs : List (Option (List Char) × List Char)) :
    R.run s (e :: evs) = R.handle s (.event e.1 e.2) >>= fun s => R.run s evs := rfl

/-- The reader does not stop before the end of the events. -/
def Reader.Quiet (R : Reader S E) (s : S) (evs : List (Option (List Char) × List Char)) : Prop :=
  ∀ evs' s', evs' <+: evs → R.run s evs' = .ok s' → R.stop s' = false

theorem Reader.readLines_of_run (hcomment : ∀ s t, R.handle s (.comment t) = .ok s)
    {lines : List (List Char)} {p : SseParser} {s s' : S}
    (hrun : R.run s (p.events lines).2 = .ok s') (hquiet : R.Quiet s (p.events lines).2) :
    R.readLines (p, s) lines = .ok (((p.events lines).1, s'), []) := by
  induction lines generalizing p s with
  | nil =>
    cases hrun
    rfl
  | cons line lines ih =>
    have hstop : R.stop s = false := hquiet [] s List.nil_prefix rfl
    unfold SseParser.events at hrun hquiet ⊢
    rcases hmessage : (p.pushLine (chomp line)).2 with _ | ⟨event, data⟩ | text
    · have hline : R.onLine (p, s) (chomp line) = .ok ((p.pushLine (chomp line)).1, s) := by
        unfold Reader.onLine
        rw [hmessage]
      simp only [hmessage, List.nil_append] at hrun hquiet ⊢
      rw [Reader.readLines, hline, Except.ok_bind, hstop]
      exact ih hrun hquiet
    · simp only [hmessage, List.singleton_append] at hrun hquiet ⊢
      rw [Reader.run_cons] at hrun
      obtain ⟨s₁, hhandle, hrun⟩ := Except.bind_eq_ok.mp hrun
      have hline : R.onLine (p, s) (chomp line) = .ok ((p.pushLine (chomp line)).1, s₁) := by
        unfold Reader.onLine
        rw [hmessage]
        dsimp only at hhandle ⊢
        rw [hhandle]
        rfl
      have hone : R.run s [(event, data)] = .ok s₁ := by
        rw [Reader.run_cons, hhandle]
        rfl
      have hstop₁ : R.stop s₁ = false := hquiet _ s₁ (List.prefix_append _ _) hone
      rw [Reader.readLines, hline, Except.ok_bind, hstop₁]
      refine ih hrun fun evs' s₂ hevs' hrun' => ?_
      refine hquiet ((event, data) :: evs') s₂ (List.cons_prefix_cons.mpr ⟨rfl, hevs'⟩) ?_
      rw [Reader.run_cons, hhandle]
      exact hrun'
    · have hline : R.onLine (p, s) (chomp line) = .ok ((p.pushLine (chomp line)).1, s) := by
        unfold Reader.onLine
        rw [hmessage]
        dsimp only
        rw [hcomment]
        rfl
      simp only [hmessage, List.nil_append] at hrun hquiet ⊢
      rw [Reader.readLines, hline, Except.ok_bind, hstop]
      exact ih hrun hquiet

theorem Reader.readLines_append {x x' : SseParser × S} {l l' : List (List Char)}
    (hstop : R.stop x.2 = false) (h : R.readLines x (l ++ l') = .ok (x', [])) :
    ∃ x₁, R.readLines x l = .ok (x₁, []) ∧
      (R.stop x₁.2 = true ∧ x₁ = x' ∧ l' = [] ∨
        R.stop x₁.2 = false ∧ R.readLines x₁ l' = .ok (x', [])) := by
  induction l generalizing x with
  | nil => exact ⟨x, rfl, .inr ⟨hstop, h⟩⟩
  | cons line l ih =>
    rw [List.cons_append, Reader.readLines] at h
    obtain ⟨y, hline, h⟩ := Except.bind_eq_ok.mp h
    rw [Reader.readLines, hline, Except.ok_bind]
    by_cases hy : R.stop y.2 = true
    · rw [if_pos hy] at h ⊢
      obtain ⟨hyx, hnil⟩ := Prod.mk.inj (Except.ok.inj h)
      obtain ⟨rfl, rfl⟩ := List.append_eq_nil_iff.mp hnil
      exact ⟨y, rfl, .inl ⟨hy, hyx, rfl⟩⟩
    · rw [if_neg hy] at h ⊢
      exact ih (Bool.eq_false_iff.mpr hy) h

theorem Reader.readLines_then {x x₁ : SseParser × S} {l : List (List Char)}
    (h : R.readLines x l = .ok (x₁, [])) (hstop : R.stop x₁.2 = false) (l' : List (List Char)) :
    R.readLines x (l ++ l') = R.readLines x₁ l' := by
  induction l generalizing x with
  | nil =>
    obtain rfl : x = x₁ := (Prod.mk.inj (Except.ok.inj h)).1
    rfl
  | cons line l ih =>
    rw [Reader.readLines] at h
    obtain ⟨y, hline, h⟩ := Except.bind_eq_ok.mp h
    rw [List.cons_append, Reader.readLines, hline, Except.ok_bind]
    by_cases hy : R.stop y.2 = true
    · rw [if_pos hy] at h
      obtain rfl : y = x₁ := (Prod.mk.inj (Except.ok.inj h)).1
      rw [hstop] at hy
      cases hy
    · rw [if_neg hy] at h ⊢
      exact ih h

/-- Chunks of text are read like the lines of the text. -/
theorem Reader.readChunks_texts (hlossy : ∀ text : List Char, codec.lossy text.utf8Encode = text)
    {texts : List (List Char)} {buf : List Char} {x x' : SseParser × S}
    (hstop : R.stop x.2 = false) (hbuf : (drain buf).1 = [])
    (hlines : R.readLines x (feed buf texts).1 = .ok (x', [])) (hrest : (feed buf texts).2 = []) :
    R.readChunks codec x buf (texts.map List.utf8Encode) = .ok (x', []) := by
  induction texts generalizing buf x with
  | nil =>
    obtain rfl : x = x' := (Prod.mk.inj (Except.ok.inj hlines)).1
    exact congrArg (fun b => Except.ok (x, b)) hrest
  | cons text texts ih =>
    rw [feed] at hlines hrest
    obtain ⟨x₁, hfirst, hnext⟩ := Reader.readLines_append hstop hlines
    have hleft : (drain (drain (buf ++ text)).2).1 = [] := drain_left (buf ++ text)
    rw [List.map_cons, Reader.readChunks, hlossy]
    show (R.readLines x (drain (buf ++ text)).1 >>= _) = _
    rw [hfirst, Except.ok_bind]
    show (if R.stop x₁.2 = true then _ else _) = _
    rcases hnext with ⟨hstop₁, rfl, hnil⟩ | ⟨hstop₁, hlines₁⟩
    · -- nothing is left when the reader stops
      have hempty : (drain (buf ++ text)).2 = [] := by
        have hfeed := feed_eq _ texts hleft
        have hdrain : drain ((drain (buf ++ text)).2 ++ texts.flatten) = ([], []) := by
          rw [← hfeed, ← hnil, ← hrest]
        have hall : (drain (buf ++ text)).2 ++ texts.flatten = [] :=
          (drain_rest (congrArg Prod.fst hdrain)).symm.trans (congrArg Prod.snd hdrain)
        exact (List.append_eq_nil_iff.mp hall).1
      rw [if_pos hstop₁, hempty]
      rfl
    · rw [if_neg (by rw [hstop₁]; decide)]
      exact ih hstop₁ hleft hlines₁ hrest

end Reader

/-! ## The events of a stream -/

section Stream

variable {Value : Type} {codec : Codec Value}

/-- What a JSON writer makes of a payload. -/
structure Codec.Faithful (codec : Codec Value) (payload : SkillTraceEventPayload) : Prop where
  reread : codec.fromStr (codec.toString payload) = some payload
  /-- an object -/
  braces : ∃ mid, codec.toString payload = '{' :: (mid ++ ['}'])
  /-- compact, so on one line -/
  oneLine : '\n' ∉ codec.toString payload

/-- The events of some items. -/
def itemEvents (codec : Codec Value) (items : List TraceItem) :
    List (Option (List Char) × List Char) :=
  (payloads items).map fun p => (some "skill_trace".toList, codec.toString p)

/-- Lines behind each other. -/
theorem SseParser.events_append (p : SseParser) (l l' : List (List Char)) :
    p.events (l ++ l') =
      (((p.events l).1.events l').1, (p.events l).2 ++ ((p.events l).1.events l').2) := by
  induction l generalizing p with
  | nil => rfl
  | cons line l ih =>
    rw [List.cons_append, SseParser.events, SseParser.events]
    simp only [ih, List.append_assoc]

theorem trim_object {mid : List Char} :
    trim (' ' :: '{' :: (mid ++ ['}'])) = '{' :: (mid ++ ['}']) := by
  unfold trim
  rw [List.dropWhile_cons_of_pos (by decide), List.dropWhile_cons_of_neg (by decide),
    ← List.cons_append, List.rdropWhile_concat_neg _ _ _ (by decide)]

theorem strip_append (p rest : List Char) : strip p (p ++ rest) = some rest :=
  List.dropPrefix?_eq_some_iff.mpr ⟨p, rfl, beq_self_eq_true p⟩

theorem pushLine_data (p : SseParser) (rest : List Char) :
    p.pushLine ("data:".toList ++ rest)
      = ({ p with dataLines := p.dataLines ++ [trim rest] }, none) := by
  have hcolon : strip [':'] ("data:".toList ++ rest) = none := rfl
  have hevent : strip "event:".toList ("data:".toList ++ rest) = none := rfl
  have hdata : strip "data:".toList ("data:".toList ++ rest) = some rest := strip_append _ rest
  unfold SseParser.pushLine
  rw [hcolon, hevent, hdata]
  rfl

theorem chomp_eq {l : List Char} {c : Char} (hc : c ≠ '\r') : chomp (l ++ [c]) = l ++ [c] := by
  unfold chomp
  rw [if_neg]
  rw [List.getLast?_append]
  simpa using hc

/-- The lines of some items. -/
theorem drain_items (items : List TraceItem) (h : ∀ p ∈ payloads items, codec.Faithful p)
    (rest : List Char) :
    ∃ lines, drain (items.flatMap (TraceItem.text codec) ++ rest)
        = (lines ++ (drain rest).1, (drain rest).2) ∧
      SseParser.events {} lines = ({}, itemEvents codec items) := by
  induction items with
  | nil => exact ⟨[], rfl, rfl⟩
  | cons item items ih =>
    cases item with
    | event p =>
      have hp : codec.Faithful p := h p List.mem_cons_self
      obtain ⟨lines, hlines, hevents⟩ := ih fun q hq => h q (List.mem_cons_of_mem p hq)
      obtain ⟨mid, hmid⟩ := hp.braces
      have hdata : '\n' ∉ "data: ".toList ++ codec.toString p := by
        rw [List.mem_append]
        rintro (hmem | hmem)
        · revert hmem
          decide
        · exact hp.oneLine hmem
      refine ⟨"event: skill_trace".toList :: ("data: ".toList ++ codec.toString p) :: [] :: lines,
        ?_, ?_⟩
      · have htext : (TraceItem.event p :: items).flatMap (TraceItem.text codec) ++ rest
            = "event: skill_trace".toList ++ '\n' ::
            (("data: ".toList ++ codec.toString p) ++ '\n' ::
              ([] ++ '\n' :: (items.flatMap (TraceItem.text codec) ++ rest))) := by
          rw [List.flatMap_cons]
          show (("event: skill_trace\ndata: ".toList ++ codec.toString p ++ "\n\n".toList) ++ _) ++ _ = _
          simp
        rw [htext, drain_line (by decide), drain_line hdata, drain_line (by decide), hlines]
        rfl
      · have hfirst : SseParser.events {} ["event: skill_trace".toList,
              "data: ".toList ++ codec.toString p, []]
            = ({}, [(some "skill_trace".toList, codec.toString p)]) := by
          have hevent : SseParser.pushLine {} (chomp "event: skill_trace".toList)
              = ({ pendingEvent := some "skill_trace".toList }, none) := by decide +kernel
          have hchomp : chomp ("data: ".toList ++ codec.toString p)
              = "data:".toList ++ ' ' :: codec.toString p := by
            rw [hmid, ← List.cons_append, ← List.append_assoc, chomp_eq (by decide)]
            simp
          have hdata (q : SseParser) : q.pushLine (chomp ("data: ".toList ++ codec.toString p))
              = ({ q with dataLines := q.dataLines ++ [codec.toString p] }, none) := by
            rw [hchomp, pushLine_data, hmid, trim_object]
          simp only [SseParser.events, hevent, hdata]
          rw [hmid]
          rfl
        show SseParser.events {} (["event: skill_trace".toList,
              "data: ".toList ++ codec.toString p, []] ++ lines) = _
        rw [SseParser.events_append, hfirst, hevents]
        rfl
    | heartbeat =>
      obtain ⟨lines, hlines, hevents⟩ := ih h
      refine ⟨": heartbeat".toList :: [] :: lines, ?_, ?_⟩
      · have htext : (TraceItem.heartbeat :: items).flatMap (TraceItem.text codec) ++ rest
            = ": heartbeat".toList ++ '\n' ::
              ([] ++ '\n' :: (items.flatMap (TraceItem.text codec) ++ rest)) := by
          rw [List.flatMap_cons]
          show ((": ".toList ++ "heartbeat".toList ++ "\n\n".toList) ++ _) ++ _ = _
          simp
        rw [htext, drain_line (by decide), drain_line (by decide), hlines]
        rfl
      · have hfirst : SseParser.events {} [": heartbeat".toList, []] = ({}, []) := by decide +kernel
        show SseParser.events {} ([": heartbeat".toList, []] ++ lines) = _
        rw [SseParser.events_append, hfirst, hevents]
        rfl

/-! ## The body -/

/-- The body up to its first line feed. -/
def firstLine (body : List Char) : List Char := body.takeWhile (· ≠ '\n')

/-- The lines of a body. -/
def linesOf (body : List Char) : List (List Char) := (drain (body ++ ['\n'])).1

/-- What a JSON reader makes of a body. -/
structure Codec.JsonText (codec : Codec Value) (body : List Char) : Prop where
  /-- white space around a text is not part of its value -/
  trimmed : codec.value (trim body) = codec.value body
  valid : (codec.value body).isSome = true
  /-- a text is not a text up to a line feed, unless only white space follows -/
  cut : ∀ a b, body = a ++ '\n' :: b → '\n' ∉ a → (∃ c ∈ b, Strs.isWhiteSpace c = false) →
    codec.value (trim a) = none
  /-- no line of a text looks like one of an event stream -/
  lines : ∀ line ∈ linesOf body,
    strip "event:".toList (chomp line) = none ∧ strip "data:".toList (chomp line) = none
  notDone : trim (firstLine body) ≠ done

theorem firstLine_self {body : List Char} (h : '\n' ∉ body) : firstLine body = body :=
  List.takeWhile_eq_self_iff.mpr fun _ hc => decide_eq_true (ne_of_mem_of_not_mem hc h)

theorem firstLine_append {a b : List Char} (h : '\n' ∉ a) : firstLine (a ++ '\n' :: b) = a := by
  unfold firstLine
  rw [List.takeWhile_append_of_pos fun _ hc => decide_eq_true (ne_of_mem_of_not_mem hc h),
    List.takeWhile_cons_of_neg (by decide), List.append_nil]

/-- A body behind some text on its first line. -/
theorem drain_body {x : List Char} (hx : '\n' ∉ x) (body rest : List Char) :
    ∃ bs, (∀ l ∈ bs, l ∈ linesOf body) ∧
      drain (x ++ body ++ '\n' :: rest)
        = ((x ++ firstLine body) :: bs ++ (drain rest).1, (drain rest).2) := by
  by_cases hnl : '\n' ∈ body
  · obtain ⟨a, b, rfl, ha⟩ := List.eq_append_cons_of_mem hnl
    have hxa : '\n' ∉ x ++ a := fun h => (List.mem_append.mp h).elim hx ha
    refine ⟨(drain (b ++ ['\n'])).1, fun l hl => ?_, ?_⟩
    · unfold linesOf
      rw [List.append_assoc, List.cons_append, drain_line ha]
      exact List.mem_cons_of_mem a hl
    · have htail : drain (b ++ '\n' :: rest)
          = ((drain (b ++ ['\n'])).1 ++ (drain rest).1, (drain rest).2) := by
        rw [List.append_cons, drain_append, drain_newline, List.nil_append]
      rw [firstLine_append ha, ← List.append_assoc, List.append_assoc, List.cons_append,
        drain_line hxa, htail]
      rfl
  · have hxb : '\n' ∉ x ++ body := fun h => (List.mem_append.mp h).elim hx hnl
    refine ⟨[], fun l hl => absurd hl List.not_mem_nil, ?_⟩
    rw [firstLine_self hnl, drain_line hxb]
    rfl

/-- A line that brings neither an event nor data. -/
def Plain (line : List Char) : Prop :=
  strip "event:".toList (chomp line) = none ∧ strip "data:".toList (chomp line) = none

theorem pushLine_plain (p : SseParser) {line : List Char} (h : Plain line) (hne : chomp line ≠ []) :
    ∃ message, p.pushLine (chomp line) = (p, message) ∧
      ∀ event data, message ≠ some (.event event data) := by
  unfold SseParser.pushLine
  rcases strip [':'] (chomp line) with _ | rest
  · dsimp only
    rw [if_neg hne, h.1, h.2]
    exact ⟨none, rfl, nofun⟩
  · exact ⟨some (.comment (trim rest)), rfl, nofun⟩

theorem events_cons {p p' : SseParser} {line : List Char} {message : Option SseMessage}
    (h : p.pushLine (chomp line) = (p', message))
    (hmessage : ∀ event data, message ≠ some (.event event data)) (lines : List (List Char)) :
    p.events (line :: lines) = p'.events lines := by
  rw [SseParser.events, h]
  rcases message with _ | ⟨event, data⟩ | text
  · rfl
  · exact absurd rfl (hmessage event data)
  · rfl

theorem events_plain {lines : List (List Char)} (h : ∀ l ∈ lines, Plain l) :
    SseParser.events {} lines = ({}, []) := by
  induction lines with
  | nil => rfl
  | cons line lines ih =>
    have ih' := ih fun l hl => h l (List.mem_cons_of_mem line hl)
    by_cases hne : chomp line = []
    · have hpush : SseParser.pushLine {} (chomp line) = ({}, none) := by
        rw [hne]
        rfl
      rw [events_cons hpush nofun, ih']
    · obtain ⟨message, hpush, hmessage⟩ := pushLine_plain {} (h line List.mem_cons_self) hne
      rw [events_cons hpush hmessage, ih']

/-- An event and its data are dispatched at the first empty line. -/
theorem events_pending {lines : List (List Char)} (h : ∀ l ∈ lines, Plain l)
    (hempty : ∃ l ∈ lines, chomp l = []) (event data : List Char) :
    SseParser.events { pendingEvent := some event, dataLines := [data] } lines
      = ({}, [(some event, data)]) := by
  induction lines with
  | nil =>
    obtain ⟨l, hl, -⟩ := hempty
    cases hl
  | cons line lines ih =>
    have hlines : ∀ l ∈ lines, Plain l := fun l hl => h l (List.mem_cons_of_mem line hl)
    by_cases hne : chomp line = []
    · have hpush : SseParser.pushLine
        { pendingEvent := some event, dataLines := [data] } (chomp line)
          = ({}, some (.event (some event) data)) := by
        rw [hne]
        show (if joinLines [data] = [] ∧ some event = none then _ else _) = _
        rw [if_neg fun h => by cases h.2]
        rfl
      unfold SseParser.events
      rw [hpush]
      dsimp only
      rw [events_plain hlines]
      rfl
    · obtain ⟨message, hpush, hmessage⟩ :=
        pushLine_plain { pendingEvent := some event, dataLines := [data] }
          (h line List.mem_cons_self) hne
      rw [events_cons hpush hmessage]
      obtain ⟨l, hl, hl'⟩ := hempty
      rcases List.mem_cons.mp hl with rfl | hl
      · exact absurd hl' hne
      · exact ih hlines ⟨l, hl, hl'⟩

theorem trim_white {l w : List Char} (hw : ∀ c ∈ w, Strs.isWhiteSpace c = true) :
    trim (l ++ w) = trim l := by
  unfold trim
  rw [List.dropWhile_append]
  split
  next h =>
    rw [List.isEmpty_iff.mp h, List.dropWhile_eq_nil_iff.mpr hw]
  next =>
    unfold List.rdropWhile
    rw [List.reverse_append,
      List.dropWhile_append_of_pos fun c hc => hw c (List.mem_reverse.mp hc)]

theorem trim_chomp (l : List Char) : trim (' ' :: chomp l) = trim l := by
  have hblank : ∀ m, trim (' ' :: m) = trim m := by
    intro m
    unfold trim
    rw [List.dropWhile_cons_of_pos (by decide)]
  rw [hblank]
  unfold chomp
  split
  next h =>
    obtain ⟨l', rfl⟩ := List.getLast?_eq_some_iff.mp h
    rw [List.dropLast_concat, trim_white (w := ['\r']) fun c hc => List.mem_singleton.mp hc ▸ rfl]
  next => rfl

/-- The line of the data of a body. -/
theorem chomp_data (l : List Char) :
    chomp ("data: ".toList ++ l) = "data:".toList ++ ' ' :: chomp l := by
  rcases l.eq_nil_or_concat with rfl | ⟨l, c, rfl⟩
  · decide +kernel
  · rw [List.concat_eq_append]
    by_cases hc : c = '\r'
    · unfold chomp
      rw [hc, ← List.append_assoc, List.getLast?_concat, List.getLast?_concat, if_pos rfl,
        if_pos rfl, List.dropLast_concat, List.dropLast_concat]
      rfl
    · rw [← List.append_assoc, chomp_eq hc, chomp_eq hc, List.append_assoc]
      rfl

/-- **The events of a stream**: of the body there is only the first line. -/
theorem drain_stream {items : List TraceItem} {body : List Char}
    (hitems : ∀ p ∈ payloads items, codec.Faithful p)
    (hbody : ∀ l ∈ linesOf body, Plain l) :
    ∃ lines, drain (traceStream codec items body) = (lines ++ [[]], []) ∧
      SseParser.events {} lines = ({ dataLines := [done] },
        itemEvents codec items ++ [(some "skill_result".toList, trim (firstLine body))]) := by
  obtain ⟨bs, hbs, hdrain⟩ := drain_body (x := "data: ".toList) (by decide) body
    ('\n' :: emitTraceDone)
  obtain ⟨lines, hlines, hevents⟩ := drain_items items hitems
    (emitTraceSkillResult body ++ emitTraceDone)
  have hplain : ∀ l ∈ bs ++ [[]], Plain l := by
    intro l hl
    rcases List.mem_append.mp hl with hl | hl
    · exact hbody l (hbs l hl)
    · obtain rfl := List.mem_singleton.mp hl
      exact ⟨rfl, rfl⟩
  have hend : drain ('\n' :: emitTraceDone)
    = ([[], "data: [DONE]".toList, []], []) := by decide +kernel
  have htext : emitTraceSkillResult body ++ emitTraceDone
      = "event: skill_result".toList ++ '\n' :: ("data: ".toList ++ body ++ '\n' ::
          '\n' :: emitTraceDone) := by
    unfold emitTraceSkillResult
    simp
  refine ⟨lines ++ ("event: skill_result".toList :: ("data: ".toList ++ firstLine body) ::
    (bs ++ [[]]) ++ ["data: [DONE]".toList]), ?_, ?_⟩
  · unfold traceStream
    rw [List.append_assoc, hlines, htext, drain_line (by decide), hdrain, hend]
    simp
  · have hevent : SseParser.pushLine {} (chomp "event: skill_result".toList)
        = ({ pendingEvent := some "skill_result".toList }, none) := by decide +kernel
    have hdata : SseParser.pushLine { pendingEvent := some "skill_result".toList }
          (chomp ("data: ".toList ++ firstLine body))
        = ({ pendingEvent := some "skill_result".toList, dataLines := [trim (firstLine body)] },
          none) := by
      rw [chomp_data, pushLine_data, trim_chomp]
      rfl
    have hlast : SseParser.events {} ["data: [DONE]".toList] = ({ dataLines := [done] }, []) := by
      decide +kernel
    have hpending : SseParser.events
        { pendingEvent := some "skill_result".toList, dataLines := [trim (firstLine body)] }
          (bs ++ [[]]) = ({}, [(some "skill_result".toList, trim (firstLine body))]) :=
      events_pending hplain ⟨[], List.mem_append_right bs List.mem_cons_self, rfl⟩ _ _
    have hresult : SseParser.events {} ("event: skill_result".toList ::
          ("data: ".toList ++ firstLine body) :: (bs ++ [[]]))
        = ({}, [(some "skill_result".toList, trim (firstLine body))]) := by
      rw [events_cons hevent nofun, events_cons hdata nofun, hpending]
    rw [SseParser.events_append, hevents, SseParser.events_append, hresult, hlast]
    simp

/-! ## The two readers -/

/-- Both readers give back the events, and the value of the body. -/
structure Recovers (codec : Codec Value) (items : List TraceItem) (body : List Char)
    (chunks : List ByteArray) : Prop where
  child : ∃ read data, readChildTraceSse codec chunks = .ok read ∧ read.events = payloads items ∧
    read.skillResult = some data ∧ codec.value data = codec.value body
  tool : ∃ v, codec.value body = some v ∧ callTool codec chunks = .ok (payloads items, v)

theorem readChunks_stream {S E : Type} {R : Reader S E} {s s₁ s₂ : S}
    (hlossy : ∀ text : List Char, codec.lossy text.utf8Encode = text)
    (hcomment : ∀ s t, R.handle s (.comment t) = .ok s) {items : List TraceItem} {body : List Char}
    (hitems : ∀ p ∈ payloads items, codec.Faithful p) (hbody : ∀ l ∈ linesOf body, Plain l)
    (hrun : R.run s (itemEvents codec items ++
      [(some "skill_result".toList, trim (firstLine body))]) = .ok s₁)
    (hquiet : R.Quiet s (itemEvents codec items ++
      [(some "skill_result".toList, trim (firstLine body))]))
    (hdone : R.handle s₁ (.event none done) = .ok s₂)
    {texts : List (List Char)} (htexts : texts.flatten = traceStream codec items body) :
    R.readChunks codec ({}, s) [] (texts.map List.utf8Encode) = .ok (({}, s₂), []) := by
  obtain ⟨lines, hdrain, hevents⟩ := drain_stream hitems hbody
  have hfeed : feed [] texts = (lines ++ [[]], []) := by
    rw [feed_eq [] texts rfl, List.nil_append, htexts, hdrain]
  have hstop : R.stop s = false := hquiet [] s List.nil_prefix rfl
  have hstop₁ : R.stop s₁ = false := hquiet _ s₁ (List.prefix_refl _) hrun
  have hread : R.readLines ({}, s) lines = .ok (({ dataLines := [done] }, s₁), []) := by
    have hrun' : R.run s (SseParser.events {} lines).2 = .ok s₁ := by rw [hevents]; exact hrun
    have hquiet' : R.Quiet s (SseParser.events {} lines).2 := by rw [hevents]; exact hquiet
    have h := Reader.readLines_of_run hcomment hrun' hquiet'
    rw [hevents] at h
    exact h
  have hlast : R.readLines ({ dataLines := [done] }, s₁) [[]] = .ok (({}, s₂), []) := by
    have hline : R.onLine ({ dataLines := [done] }, s₁) (chomp []) = .ok ({}, s₂) := by
      show (R.handle s₁ (.event none done) >>= _) = _
      rw [hdone]
      rfl
    rw [Reader.readLines, hline, Except.ok_bind]
    split
    next => rfl
    next => rfl
  refine Reader.readChunks_texts hlossy hstop rfl ?_ (by rw [hfeed])
  rw [hfeed]
  exact (Reader.readLines_then hread hstop₁ [[]]).trans hlast

/-- The child's reader over events before the end. -/
theorem childReader_quiet (st : ChildTraceRead) (hst : st.sawDone = false)
    {evs : List (Option (List Char) × List Char)} (h : ∀ e ∈ evs, e.2 ≠ done) :
    (childReader codec).Quiet st evs := by
  intro evs' st' hpre hrun
  have h' : ∀ e ∈ evs', e.2 ≠ done := fun e he => h e (hpre.subset he)
  clear hpre h
  induction evs' generalizing st with
  | nil =>
    cases hrun
    exact hst
  | cons e evs' ih =>
    rw [Reader.run_cons] at hrun
    obtain ⟨st₁, hhandle, hrun⟩ := Except.bind_eq_ok.mp hrun
    refine ih st₁ ?_ hrun fun e' he' => h' e' (List.mem_cons_of_mem e he')
    change childHandle codec st (.event e.1 e.2) = _ at hhandle
    unfold childHandle at hhandle
    dsimp only at hhandle
    rw [if_neg (h' e List.mem_cons_self)] at hhandle
    split at hhandle
    next =>
      split at hhandle
      next => cases hhandle
      next =>
        cases hhandle
        exact hst
    next =>
      split at hhandle
      next =>
        cases hhandle
        exact hst
      next =>
        cases hhandle
        exact hst

theorem run_append {S E : Type} (R : Reader S E) (s : S)
    (evs evs' : List (Option (List Char) × List Char)) :
    R.run s (evs ++ evs') = R.run s evs >>= fun s => R.run s evs' := List.foldlM_append ..

/-- An object does not end the stream. -/
theorem Codec.Faithful.ne_done {p : SkillTraceEventPayload} (h : codec.Faithful p) :
    codec.toString p ≠ done := by
  obtain ⟨mid, hmid⟩ := h.braces
  rw [hmid]
  intro heq
  exact absurd (List.cons.inj heq).1 (by decide)

/-- The events of a run, for a reader that adds each payload it is given. -/
theorem run_items {S E : Type} {R : Reader S E} (events : S → List SkillTraceEventPayload)
    (hpayload : ∀ s p, codec.Faithful p → ∃ s',
      R.handle s (.event (some "skill_trace".toList) (codec.toString p)) = .ok s' ∧
        events s' = events s ++ [p])
    (s : S) {items : List TraceItem} (hitems : ∀ p ∈ payloads items, codec.Faithful p) :
    ∃ s', R.run s (itemEvents codec items) = .ok s' ∧ events s' = events s ++ payloads items := by
  unfold itemEvents
  generalize payloads items = ps at hitems ⊢
  induction ps generalizing s with
  | nil => exact ⟨s, rfl, by rw [List.append_nil]⟩
  | cons p ps ih =>
    obtain ⟨s₁, hhandle, hevents₁⟩ := hpayload s p (hitems p List.mem_cons_self)
    obtain ⟨s', hrun, hevents⟩ := ih s₁ fun q hq => hitems q (List.mem_cons_of_mem p hq)
    refine ⟨s', ?_, ?_⟩
    · rw [List.map_cons, Reader.run_cons, hhandle]
      exact hrun
    · rw [hevents, hevents₁, List.append_assoc, List.singleton_append]

theorem childHandle_payload (st : ChildTraceRead) (p : SkillTraceEventPayload)
    (hp : codec.Faithful p) : ∃ st',
      childHandle codec st (.event (some "skill_trace".toList) (codec.toString p)) = .ok st' ∧
        st'.events = st.events ++ [p] := by
  unfold childHandle
  dsimp only
  rw [if_neg hp.ne_done, if_pos rfl, hp.reread]
  exact ⟨_, rfl, rfl⟩

theorem handleSseMessage_payload (st : ToolRead Value) (p : SkillTraceEventPayload)
    (hp : codec.Faithful p) : ∃ st',
      handleSseMessage codec st (.event (some "skill_trace".toList) (codec.toString p)) = .ok st' ∧
        st'.events = st.events ++ [p] := by
  unfold handleSseMessage
  dsimp only
  rw [if_neg hp.ne_done, if_pos rfl, hp.reread]
  exact ⟨_, rfl, rfl⟩

theorem childReader_handle : (childReader codec).handle = childHandle codec := rfl

theorem toolReader_handle : (toolReader codec).handle = handleSseMessage codec := rfl

theorem childHandle_done (st : ChildTraceRead) :
    (childReader codec).handle st (.event none done) = .ok { st with sawDone := true } := by
  rw [childReader_handle, childHandle, if_pos rfl]

theorem handleSseMessage_done (st : ToolRead Value) :
    (toolReader codec).handle st (.event none done) = .ok { st with sawDone := true } := by
  rw [toolReader_handle, handleSseMessage, if_pos rfl]

/-- What the child's reader makes of a stream. -/
theorem readChildTraceSse_stream (hlossy : ∀ text : List Char, codec.lossy text.utf8Encode = text)
    {items : List TraceItem} {body : List Char} (hitems : ∀ p ∈ payloads items, codec.Faithful p)
    (hbody : codec.JsonText body) {texts : List (List Char)}
    (htexts : texts.flatten = traceStream codec items body) :
    ∃ read, readChildTraceSse codec (texts.map List.utf8Encode) = .ok read ∧
      read.events = payloads items ∧ read.skillResult = some (trim (firstLine body)) := by
  obtain ⟨st, hrun, hevents⟩ := run_items (R := childReader codec) ChildTraceRead.events
    childHandle_payload {} hitems
  have hresult : (childReader codec).handle st
      (.event (some "skill_result".toList) (trim (firstLine body)))
        = .ok { st with skillResult := some (trim (firstLine body)) } := by
    rw [childReader_handle, childHandle, if_neg hbody.notDone, if_neg (by decide), if_pos rfl]
  have hquiet : (childReader codec).Quiet {} (itemEvents codec items ++
      [(some "skill_result".toList, trim (firstLine body))]) := by
    refine childReader_quiet {} rfl fun e he => ?_
    rcases List.mem_append.mp he with he | he
    · obtain ⟨p, hp, rfl⟩ := List.mem_map.mp he
      exact (hitems p hp).ne_done
    · rw [List.mem_singleton.mp he]
      exact hbody.notDone
  have hread := readChunks_stream hlossy (fun _ _ => rfl) hitems hbody.lines (by
    rw [run_append, hrun, Except.ok_bind, Reader.run_cons, hresult]
    rfl) hquiet (childHandle_done _) htexts
  unfold readChildTraceSse
  rw [hread, Except.ok_bind]
  exact ⟨_, rfl, hevents, rfl⟩

/-- What the reader of a tool call makes of a stream whose first line is all of the body. -/
theorem callTool_stream (hlossy : ∀ text : List Char, codec.lossy text.utf8Encode = text)
    {items : List TraceItem} {body : List Char} (hitems : ∀ p ∈ payloads items, codec.Faithful p)
    (hbody : codec.JsonText body) {v : Value} (hv : codec.value (trim (firstLine body)) = some v)
    {texts : List (List Char)} (htexts : texts.flatten = traceStream codec items body) :
    callTool codec (texts.map List.utf8Encode) = .ok (payloads items, v) := by
  obtain ⟨st, hrun, hevents⟩ := run_items (R := toolReader codec) ToolRead.events
    handleSseMessage_payload {} hitems
  have hresult : (toolReader codec).handle st
      (.event (some "skill_result".toList) (trim (firstLine body)))
        = .ok { st with finalResult := some v } := by
    rw [toolReader_handle, handleSseMessage, if_neg hbody.notDone, if_neg (by decide), if_pos rfl,
      hv]
  have hread := readChunks_stream hlossy (fun _ _ => rfl) hitems hbody.lines (by
    rw [run_append, hrun, Except.ok_bind, Reader.run_cons, hresult]
    rfl) (fun _ _ _ _ => rfl) (handleSseMessage_done _) htexts
  unfold callTool
  rw [hread, Except.ok_bind]
  exact congrArg (fun l => Except.ok (l, v)) hevents

/-- After a line feed there is only white space. -/
def OneLine (body : List Char) : Prop :=
  ∀ a b, body = a ++ '\n' :: b → ∀ c ∈ b, Strs.isWhiteSpace c = true

/-- **When a trace decodes to what was encoded**: each chunk holds whole characters, and the body
has no line feed but in the white space at its end. -/
theorem recovers_iff (hlossy : ∀ text : List Char, codec.lossy text.utf8Encode = text)
    {items : List TraceItem} {body : List Char} (hitems : ∀ p ∈ payloads items, codec.Faithful p)
    (hbody : codec.JsonText body) {texts : List (List Char)}
    (htexts : texts.flatten = traceStream codec items body) :
    Recovers codec items body (texts.map List.utf8Encode) ↔ OneLine body := by
  obtain ⟨read, hread, hevents, hresult⟩ := readChildTraceSse_stream hlossy hitems hbody htexts
  constructor
  · rintro ⟨⟨read', data, hread', -, hdata, hvalue⟩, -⟩ a b rfl c hc
    obtain rfl : read = read' := Except.ok.inj (hread.symm.trans hread')
    obtain rfl : trim (firstLine _) = data := Option.some.inj (hresult.symm.trans hdata)
    by_contra hwhite
    have hnl : '\n' ∈ a ++ '\n' :: b := List.mem_append_right a List.mem_cons_self
    obtain ⟨a', b', hsplit, ha'⟩ := List.eq_append_cons_of_mem hnl
    -- the part behind the first line feed has the same character
    have hmem : c ∈ b' := by
      rcases List.append_eq_append_iff.mp hsplit with ⟨x, rfl, hx⟩ | ⟨x, rfl, hx⟩
      · rcases x with _ | ⟨d, x⟩
        · exact (List.cons.inj hx).2 ▸ hc
        · obtain ⟨rfl, -⟩ := List.cons.inj hx
          exact absurd (List.mem_append_right a List.mem_cons_self) ha'
      · rcases x with _ | ⟨d, x⟩
        · exact (List.cons.inj hx).2 ▸ hc
        · obtain ⟨-, rfl⟩ := List.cons.inj hx
          exact List.mem_append_right x (List.mem_cons_of_mem _ hc)
    have hcut := hbody.cut a' b' hsplit ha' ⟨c, hmem, Bool.not_eq_true _ ▸ hwhite⟩
    have hfirst : firstLine (a ++ '\n' :: b) = a' := by
      rw [hsplit, firstLine_append ha']
    rw [hfirst, hcut] at hvalue
    have hvalid := hbody.valid
    rw [← hvalue] at hvalid
    cases hvalid
  · intro hone
    have htrim : trim (firstLine body) = trim body := by
      by_cases hnl : '\n' ∈ body
      · obtain ⟨a, b, rfl, ha⟩ := List.eq_append_cons_of_mem hnl
        rw [firstLine_append ha, trim_white]
        intro c hc
        rcases List.mem_cons.mp hc with rfl | hc
        · rfl
        · exact hone a b rfl c hc
      · rw [firstLine_self hnl]
    have hvalue : codec.value (trim (firstLine body)) = codec.value body := by
      rw [htrim, hbody.trimmed]
    obtain ⟨v, hv⟩ := Option.isSome_iff_exists.mp hbody.valid
    exact ⟨⟨read, _, hread, hevents, hresult, hvalue⟩, v, hv,
      callTool_stream hlossy hitems hbody (hvalue.trans hv) htexts⟩

end Stream

/-! ## Two bodies -/

/-- The first event of a call. -/
def sampleStart : SkillTraceEventPayload := { eventType := "call_start", depth := 1, skill := "a" }

def sampleText : List Char :=
  "\x7b\"type\":\"call_start\",\"call_id\":\"\",\"parent_call_id\":null,\"depth\":1,\"skill\":\"a\",\"ts_ms\":0\x7d".toList

/-- A codec that knows one event and the empty object, in one line and in two. -/
def sampleCodec : Codec Unit where
  toString p := if p = sampleStart then sampleText else []
  fromStr s := if s = sampleText then some sampleStart else none
  value s := if trim s = "\x7b\x7d".toList ∨ trim s = "\x7b\n\x7d".toList then some () else none
  lossy b := (b.utf8Decode?.map Array.toList).getD []

theorem sampleCodec_lossy (text : List Char) : sampleCodec.lossy text.utf8Encode = text := by
  show (text.utf8Encode.utf8Decode?.map Array.toList).getD [] = text
  rw [List.utf8Decode?_utf8Encode]
  rfl

/-- An object with its brackets on two lines comes back as the first of them. -/
theorem not_recovers_two_lines : sampleCodec.JsonText "\x7b\n\x7d".toList ∧
    ¬ Recovers sampleCodec [] "\x7b\n\x7d".toList
      [(traceStream sampleCodec [] "\x7b\n\x7d".toList).utf8Encode] := by
  have hjson : sampleCodec.JsonText "\x7b\n\x7d".toList := by
    refine ⟨by decide +kernel, by decide +kernel, ?_, by decide +kernel, by decide +kernel⟩
    intro a b hsplit ha _
    have hfirst := firstLine_append (b := b) ha
    rw [← hsplit] at hfirst
    rw [← hfirst]
    decide +kernel
  refine ⟨hjson, fun h => ?_⟩
  obtain ⟨read, data, hread, -, hdata, hvalue⟩ := h.child
  have hflat : [traceStream sampleCodec [] "\x7b\n\x7d".toList].flatten
      = traceStream sampleCodec [] "\x7b\n\x7d".toList := List.flatten_singleton
  obtain ⟨read', hread', -, hresult⟩ := readChildTraceSse_stream sampleCodec_lossy
    (fun _ hp => absurd hp List.not_mem_nil) hjson hflat
  obtain rfl : read = read' := Except.ok.inj (hread.symm.trans hread')
  obtain rfl : data = trim (firstLine _) := Option.some.inj (hdata.symm.trans hresult)
  have hneq : sampleCodec.value (trim (firstLine "\x7b\n\x7d".toList))
      ≠ sampleCodec.value "\x7b\n\x7d".toList := by decide +kernel
  exact hneq hvalue

theorem split_sample {a b : List Char} (h : "\x7b\x7d\n".toList = a ++ '\n' :: b) : b = [] := by
  have hchars : ['\x7b', '\x7d', '\n'] = a ++ '\n' :: b := h
  rcases a with _ | ⟨_, _ | ⟨_, _ | ⟨_, a⟩⟩⟩
  · cases hchars
  · cases hchars
  · cases hchars
    rfl
  · have hlen := congrArg List.length hchars
    simp at hlen

theorem recovers_one_line : ∃ texts : List (List Char), texts.length = 2 ∧
    texts.flatten = traceStream sampleCodec [.event sampleStart, .heartbeat] "\x7b\x7d\n".toList ∧
    Recovers sampleCodec [.event sampleStart, .heartbeat] "\x7b\x7d\n".toList
      (texts.map List.utf8Encode) := by
  have hjson : sampleCodec.JsonText "\x7b\x7d\n".toList := by
    refine ⟨by decide +kernel, by decide +kernel, ?_, by decide +kernel, by decide +kernel⟩
    rintro a b hsplit - ⟨c, hc, -⟩
    rw [split_sample hsplit] at hc
    cases hc
  have hone : OneLine "\x7b\x7d\n".toList := by
    intro a b hsplit c hc
    rw [split_sample hsplit] at hc
    cases hc
  have hitems : ∀ p ∈ payloads [.event sampleStart, .heartbeat], sampleCodec.Faithful p := by
    intro p hp
    obtain rfl : p = sampleStart := List.mem_singleton.mp hp
    exact ⟨by decide +kernel, ⟨sampleText.tail.dropLast, by decide +kernel⟩, by decide +kernel⟩
  refine ⟨[(traceStream sampleCodec [.event sampleStart, .heartbeat] "\x7b\x7d\n".toList).take 30,
    (traceStream sampleCodec [.event sampleStart, .heartbeat] "\x7b\x7d\n".toList).drop 30], rfl,
    ?_, ?_⟩
  · rw [List.flatten_cons, List.flatten_singleton, List.take_append_drop]
  · refine (recovers_iff sampleCodec_lossy hitems hjson ?_).mpr hone
    rw [List.flatten_cons, List.flatten_singleton, List.take_append_drop]

end Inferx.Skill
