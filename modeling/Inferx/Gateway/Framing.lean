import Inferx.Gateway.Metered

/-!
# Metering and frames

A streamed answer comes in frames that the network cuts where it likes. What is left
of a line at the end of a frame is kept for the next, so lines may be cut anywhere. But
a frame is read as text by itself: where a cut falls inside a character, neither of the
two frames is text, and both are passed on at once and unread.
-/

namespace Inferx.Gateway

open Inferx.Lines

variable {serde : Serde} {filter : Bool}

/-! ## Streams -/

/-- The bytes of some pieces. -/
def concat (bs : List ByteArray) : ByteArray := bs.foldr (· ++ ·) ByteArray.empty

/-- The end of a stream, which may be broken. -/
def ending (broken : Bool) : List Frame := if broken then [.error] else []

/-- What comes of a stream in frames: the bytes that the client is sent, and the event. -/
def metered (serde : Serde) (filter broken : Bool) (meter : Option TokenMeterCtx)
    (bs : List ByteArray) :
    ByteArray × Option TokenUsageEvent :=
  let out := processUsageResponse serde (fun _ => true)
    { status := 200, frames := bs.map .data ++ ending broken }
    true filter meter
  (concat out.1.body, out.2)

/-- **The frames make no difference**: all is as if the stream had come in one. -/
def FrameFree (serde : Serde) (bs : List ByteArray) : Prop :=
  ∀ filter broken meter, metered serde filter broken meter bs
  = metered serde filter broken meter [concat bs]

/-- Does the text bring a usage? -/
def Bills (serde : Serde) (text : List Char) : Prop :=
  ∃ line ∈ (drain text).1, (lineUsage serde line).isSome = true

/-! ## Frames of text -/

/-- What is passed on of a line. -/
def passLine (serde : Serde) (filter : Bool) (line : List Char) : List Char :=
  if filter && (lineUsage serde line).isSome then [] else chomp line ++ ['\n']

theorem foldl_onLine_passed (acc : Option UsageInfo × List Char) (lines : List (List Char)) :
    (lines.foldl (onLine serde filter) acc).2 = acc.2 ++ lines.flatMap (passLine serde filter) := by
  induction lines generalizing acc with
  | nil => simp
  | cons line lines ih =>
    rw [List.foldl_cons, ih, List.flatMap_cons, ← List.append_assoc]
    congr 1
    unfold onLine passLine
    rcases lineUsage serde line with _ | u
    · simp
    · cases filter
      · simp
      · simp

theorem bytesOf_eq (text : List Char) : bytesOf text = text.utf8Encode := by
  rw [bytesOf, String.toUTF8_eq_toByteArray, String.toByteArray_ofList]

theorem bytesOf_append (a b : List Char) : bytesOf (a ++ b) = bytesOf a ++ bytesOf b := by
  rw [bytesOf_eq, bytesOf_eq, bytesOf_eq, List.utf8Encode_append]

/-- What is left in the end. -/
theorem concat_flush (buf : List Char) :
    concat (if buf.isEmpty then [] else [bytesOf buf]) = bytesOf buf := by
  cases buf with
  | nil => simp [concat, bytesOf_eq]
  | cons c buf => simp [concat]

/-- A stream of text: its lines are passed on, and what is left of it unless it breaks. -/
theorem streamFrames_of_texts {frames : List Frame} {texts : List (List Char)}
    (broken : Bool) (n : ℕ)
    (st : StreamState) (h : Texts frames texts) :
    concat (streamFrames serde filter (fun _ => true) n st (frames ++ ending broken)).1 =
        bytesOf ((feed st.buf texts).1.flatMap (passLine serde filter)) ++
          (if broken then ByteArray.empty else bytesOf (feed st.buf texts).2) ∧
      (streamFrames serde filter (fun _ => true) n st (frames ++ ending broken)).2 =
        if broken then none else usageAfter serde st.lastUsage (feed st.buf texts).1 := by
  induction h generalizing n st with
  | nil =>
    cases broken
    · refine ⟨?_, rfl⟩
      rw [feed, List.flatMap_nil, bytesOf_eq [], List.utf8Encode_nil, ByteArray.empty_append]
      exact concat_flush st.buf
    · exact ⟨by simp [streamFrames, ending, feed, concat, bytesOf_eq], rfl⟩
  | @cons _ text _ texts hf hrest ih =>
    obtain ⟨b, rfl, hb⟩ := hf
    have hstate : (onFrame serde filter st b).1.lastUsage = _ ∧ _ := onFrame_text filter st hb
    obtain ⟨hsent, husage⟩ := ih (n + 1) (onFrame serde filter st b).1
    have hpiece : (onFrame serde filter st b).2 =
        bytesOf ((drain (st.buf ++ text)).1.flatMap (passLine serde filter)) := by
      unfold onFrame
      rw [hb]
      exact congrArg bytesOf ((foldl_onLine_passed _ _).trans (List.nil_append _))
    rw [hstate.2] at hsent husage
    rw [hstate.1] at husage
    refine ⟨?_, ?_⟩
    · rw [feed, List.flatMap_append, bytesOf_append, ByteArray.append_assoc, ← hsent, ← hpiece]
      rfl
    · rw [feed, usageAfter_append, ← husage]
      rfl

/-- A stream of text is read like the text in one frame. -/
theorem streamed_texts {bs : List ByteArray} {texts : List (List Char)}
    (h : Texts (bs.map .data) texts) (broken : Bool)
    (meter : Option TokenMeterCtx) :
    metered serde filter broken meter bs =
      (bytesOf ((drain texts.flatten).1.flatMap (passLine serde filter)) ++
          (if broken then ByteArray.empty else bytesOf (drain texts.flatten).2),
        (if broken then none else usageAfter serde none (drain texts.flatten).1).bind
        (recordUsage meter)) := by
  obtain ⟨hsent, husage⟩ := @streamFrames_of_texts serde filter _ _ broken 0 {} h
  rw [feed_eq [] texts rfl, List.nil_append] at hsent husage
  exact Prod.ext hsent (congrArg (fun u => Option.bind u (recordUsage meter)) husage)

theorem joined_map (bs : List ByteArray) : joined (bs.map .data) = some (concat bs) := by
  induction bs with
  | nil => rfl
  | cons b bs ih =>
    rw [List.map_cons, joined, ih]
    rfl

/-- **Frames of text** make no difference. -/
theorem frameFree_of_text {bs : List ByteArray} (h : ∀ b ∈ bs, (fromUtf8 b).isSome = true) :
    FrameFree serde bs := by
  have hended : ∀ f ∈ bs.map Frame.data, ∃ b, f = .data b := by
    intro f hf
    obtain ⟨b, -, rfl⟩ := List.mem_map.mp hf
    exact ⟨b, rfl⟩
  have htext : ∀ b, Frame.data b ∈ bs.map Frame.data → (fromUtf8 b).isSome = true := by
    intro b hb
    obtain ⟨b', hb', heq⟩ := List.mem_map.mp hb
    cases heq
    exact h b hb'
  obtain ⟨texts, htexts⟩ := exists_texts hended htext
  have hwhole : Texts ([concat bs].map .data) [texts.flatten] := by
    have hcollect := fromUtf8_collect htexts
    rw [collect, joined_map, Option.getD_some] at hcollect
    exact .cons ⟨_, rfl, hcollect⟩ .nil
  intro filter broken meter
  rw [streamed_texts htexts, streamed_texts hwhole, List.flatten_singleton]

/-! ## A cut inside a character -/

theorem size_cons (c : Char) (l : List Char) :
    (c :: l).utf8Encode.size = c.utf8Size + l.utf8Encode.size := by
  rw [List.utf8Encode_cons, ByteArray.size_append, List.utf8Encode_singleton]
  simp

/-- A position inside a character is no position of the text. -/
theorem not_isValid_inside {a b : List Char} {c : Char} (hc : 2 ≤ c.utf8Size) :
    ¬ String.Pos.Raw.IsValid (String.ofList (a ++ c :: b)) ⟨a.utf8Encode.size + 1⟩ := by
  intro h
  obtain ⟨i, hi⟩ := String.Pos.Raw.isValid_ofList.mp h
  have hsize : a.utf8Encode.size + 1 = ((a ++ c :: b).take i).utf8Encode.size := by
    refine hi.trans ?_
    rw [← String.size_toByteArray, String.toByteArray_ofList]
  rw [List.take_append, List.utf8Encode_append, ByteArray.size_append] at hsize
  by_cases hle : i ≤ a.length
  · -- the text up to there is a part of what comes before the character
    have hparts := congrArg (fun l => (List.utf8Encode l).size) (List.take_append_drop i a)
    simp only [List.utf8Encode_append, ByteArray.size_append] at hparts
    rw [Nat.sub_eq_zero_of_le hle, List.take_zero, List.utf8Encode_nil,
      ByteArray.size_empty] at hsize
    omega
  · obtain ⟨j, hj⟩ : ∃ j, i - a.length = j + 1 := ⟨i - a.length - 1, by omega⟩
    rw [hj, List.take_succ_cons, size_cons, List.take_of_length_le (by omega)] at hsize
    omega

/-- The two parts of a text that is cut inside a character are no texts. -/
theorem fromUtf8_cut {a b : List Char} {c : Char} (hc : 2 ≤ c.utf8Size) {s : ByteArray} {p : ℕ}
    (hs : s = (a ++ c :: b).utf8Encode) (hp : p = a.utf8Encode.size + 1) :
    fromUtf8 (s.extract 0 p) = none ∧ fromUtf8 (s.extract p s.size) = none := by
  have hnot := not_isValid_inside (a := a) (b := b) hc
  rw [← hp] at hnot
  have hbytes : (String.ofList (a ++ c :: b)).toByteArray
    = s := by rw [String.toByteArray_ofList, hs]
  have hlt : p < s.size := by
    rw [hs, hp, List.utf8Encode_append, ByteArray.size_append, size_cons]
    omega
  have hend : (⟨p⟩ : String.Pos.Raw) ≤ (String.ofList (a ++ c :: b)).rawEndPos := by
    rw [String.Pos.Raw.le_iff, String.byteIdx_rawEndPos, ← String.size_toByteArray, hbytes]
    exact hlt.le
  -- a part is text only between two positions
  have hnone : ∀ x : ByteArray, ¬ x.IsValidUTF8 → fromUtf8 x = none := by
    intro x hx
    rcases hx' : fromUtf8 x with _ | text
    · rfl
    · exact absurd (fromUtf8_eq_some.mp hx' ▸ ByteArray.isValidUTF8_utf8Encode) hx
  refine ⟨hnone _ fun hvalid => ?_, hnone _ fun hvalid => ?_⟩
  · have hiff := String.Pos.Raw.isValidUTF8_extract_iff (s := String.ofList (a ++ c :: b)) ⟨0⟩ ⟨p⟩
      (Nat.zero_le p) hend
    rw [hbytes] at hiff
    rcases hiff.mp hvalid with heq | ⟨-, hpos⟩
    · have hzero : 0 = p := congrArg String.Pos.Raw.byteIdx heq
      omega
    · exact hnot hpos
  · have hiff := String.Pos.Raw.isValidUTF8_extract_iff (s := String.ofList (a ++ c :: b)) ⟨p⟩
      (String.ofList (a ++ c :: b)).rawEndPos hend (Nat.le_refl _)
    rw [hbytes, String.byteIdx_rawEndPos, ← String.size_toByteArray, hbytes] at hiff
    rcases hiff.mp hvalid with heq | ⟨hpos, -⟩
    · have hfull : p = s.size := by
        rw [← hbytes, String.size_toByteArray, ← String.byteIdx_rawEndPos]
        exact congrArg String.Pos.Raw.byteIdx heq
      omega
    · exact hnot hpos

/-- Frames that are no text are not billed. -/
theorem metered_raw {bs : List ByteArray} (h : ∀ b ∈ bs, fromUtf8 b = none)
    (meter : Option TokenMeterCtx) :
    (metered serde filter false meter bs).2 = none := by
  have hnone : ∀ (bs : List ByteArray) (n : ℕ), (∀ b ∈ bs, fromUtf8 b = none) →
      (streamFrames serde filter (fun _ => true) n {} (bs.map .data ++ ending false)).2 = none := by
    intro bs
    induction bs with
    | nil => exact fun _ _ => rfl
    | cons b bs ih =>
      intro n hbs
      have hframe : (onFrame serde filter {} b).1 = {} := by
        unfold onFrame
        rw [hbs b List.mem_cons_self]
      rw [List.map_cons, List.cons_append, streamFrames]
      simp only [if_true, hframe]
      exact ih (n + 1) fun b hb => hbs b (List.mem_cons_of_mem _ hb)
  exact congrArg (fun u => Option.bind u (recordUsage meter)) (hnone bs 0 h)

/-! ## Which streams may be cut anywhere -/

theorem isSome_usageAfter {lines : List (List Char)} {acc : Option UsageInfo}
    (h : acc.isSome = true ∨ ∃ line ∈ lines, (lineUsage serde line).isSome = true) :
    (usageAfter serde acc lines).isSome = true := by
  unfold usageAfter
  induction lines generalizing acc with
  | nil => simpa using h
  | cons line lines ih =>
    rw [List.foldl_cons]
    refine ih ?_
    rcases hline : lineUsage serde line with _ | u
    · refine h.imp id ?_
      rintro ⟨l, hl, hu⟩
      rcases List.mem_cons.mp hl with rfl | hl
      · rw [hline] at hu
        cases hu
      · exact ⟨l, hl, hu⟩
    · exact .inl rfl

/-- A text with a usage is billed when it comes in one frame. -/
theorem metered_whole {text : List Char} (h : Bills serde text) (ctx : TokenMeterCtx) :
    ((metered serde filter false (some ctx) [text.utf8Encode]).2).isSome = true := by
  have htexts : Texts ([text.utf8Encode].map .data) [text] :=
    .cons ⟨_, rfl, fromUtf8_eq_some.mpr rfl⟩ .nil
  have hsome : (usageAfter serde none (drain text).1).isSome = true := isSome_usageAfter (.inr h)
  obtain ⟨u, hu⟩ := Option.isSome_iff_exists.mp hsome
  rw [streamed_texts htexts, List.flatten_singleton]
  simp only [Bool.false_eq_true, if_false, hu]
  rfl

/-- A text of one-byte characters is text in all its parts. -/
theorem fromUtf8_of_ascii {bs : List ByteArray} {text : List Char}
    (hbs : concat bs = text.utf8Encode)
    (h : ∀ c ∈ text, c.utf8Size = 1) : ∀ b ∈ bs, (fromUtf8 b).isSome = true := by
  -- as many bytes as characters
  have hsize : ∀ l : List Char, (∀ c ∈ l, c.utf8Size = 1) → l.utf8Encode.size = l.length := by
    intro l
    induction l with
    | nil => exact fun _ => rfl
    | cons c l ih =>
      intro hl
      rw [size_cons, hl c List.mem_cons_self, ih fun c hc => hl c (List.mem_cons_of_mem _ hc),
        List.length_cons]
      omega
  induction bs generalizing text with
  | nil => simp
  | cons b bs ih =>
    have hconcat : b ++ concat bs = text.utf8Encode := hbs
    have htake : (text.take b.size).utf8Encode.size = b.size := by
      rw [hsize _ fun c hc => h c (List.mem_of_mem_take hc), List.length_take,
        ← hsize text h, ← hconcat,
        ByteArray.size_append]
      omega
    have hsplit : b ++ concat bs = (text.take b.size).utf8Encode ++ (text.drop b.size).utf8Encode := by
      rw [← List.utf8Encode_append, List.take_append_drop, hconcat]
    have hb : b = (text.take b.size).utf8Encode := ByteArray.append_inj_left hsplit htake.symm
    have hrest : concat bs = (text.drop b.size).utf8Encode := by
      rw [← hb] at hsplit
      exact ByteArray.append_right_inj b |>.mp hsplit
    intro x hx
    rcases List.mem_cons.mp hx with rfl | hx
    · rw [fromUtf8_eq_some.mpr hb]
      rfl
    · exact ih hrest (fun c hc => h c (List.mem_of_mem_drop hc)) x hx

/-- A text with a character of several bytes can be cut so that nothing of it is read. -/
theorem exists_cut {text : List Char} {c : Char} (hc : c ∈ text) (hsize : 2 ≤ c.utf8Size) :
    ∃ bs : List ByteArray, concat bs = text.utf8Encode ∧ ∀ b ∈ bs, fromUtf8 b = none := by
  obtain ⟨a, b, rfl⟩ := List.append_of_mem hc
  obtain ⟨s, hs⟩ : ∃ s, s = (a ++ c :: b).utf8Encode := ⟨_, rfl⟩
  obtain ⟨hleft, hright⟩ := fromUtf8_cut hsize hs rfl
  refine ⟨[s.extract 0 (a.utf8Encode.size + 1), s.extract (a.utf8Encode.size + 1) s.size], ?_, ?_⟩
  · have hle : a.utf8Encode.size + 1 ≤ s.size := by
      rw [hs, List.utf8Encode_append, ByteArray.size_append, size_cons]
      omega
    rw [← hs, concat, List.foldr_cons, List.foldr_cons, List.foldr_nil, ByteArray.append_empty,
      ← ByteArray.extract_eq_extract_append_extract _ (Nat.zero_le _) hle,
      ByteArray.extract_zero_size]
  · simp [hleft, hright]

/-- A text with a usage that is cut so is not billed. -/
theorem not_frameFree {bs : List ByteArray} {text : List Char} (hbs : concat bs = text.utf8Encode)
    (hraw : ∀ b ∈ bs, fromUtf8 b = none) (hbills : Bills serde text) : ¬ FrameFree serde bs := by
  intro hfree
  have hwhole : ((metered serde false false (some ⟨"", none, "", "", "", 0⟩)
    [text.utf8Encode]).2).isSome = true :=
    metered_whole hbills _
  rw [← hbs, ← hfree, metered_raw hraw] at hwhole
  cases hwhole

/-- **Frames that are text by themselves make no difference**; and a stream with a usage may
be cut anywhere only if all its characters are of one byte. -/
theorem frameFree_iff (serde : Serde) :
    (∀ bs : List ByteArray, (∀ b ∈ bs, (fromUtf8 b).isSome = true) → FrameFree serde bs) ∧
    ∀ text : List Char, Bills serde text →
      ((∀ bs, concat bs = text.utf8Encode → FrameFree serde bs) ↔ ∀ c ∈ text, c.utf8Size = 1) := by
  refine ⟨fun bs h => frameFree_of_text h,
    fun text hbills => ⟨fun h c hc => ?_, fun h bs hbs => ?_⟩⟩
  · by_contra hne
    have hpos := c.utf8Size_pos
    obtain ⟨bs, hbs, hraw⟩ := exists_cut hc (by omega)
    exact not_frameFree hbs hraw hbills (h bs hbs)
  · exact frameFree_of_text (fromUtf8_of_ascii hbs h)

namespace Sample

/-- A line with one character, and a line with a usage. -/
def usageLines (c : Char) : List Char := c :: '\n' :: ("data: ".toList ++ usageText ++ ['\n'])

theorem bills_usageLines {c : Char} (hc : c ≠ '\n') : Bills reader (usageLines c) := by
  have hlist : usageText = _ := String.toList_ofList
  have hdata' : "data: ".toList = _ := String.toList_ofList
  have hlines : (drain (usageLines c)).1 = [[c], "data: ".toList ++ usageText] := by
    have htail : drain ('\n' :: ("data: ".toList ++ usageText ++ ['\n'])) =
        ([[], "data: ".toList ++ usageText], []) := by
      rw [hlist, hdata']
      decide +kernel
    rw [usageLines, drain, if_neg hc, htail]
  refine ⟨"data: ".toList ++ usageText, by rw [hlines]; simp, ?_⟩
  have hdata : dataOf (chomp ("data: ".toList ++ usageText)) = some usageText := by
    rw [hlist]
    exact dataOf_data (by decide) (by decide)
  have hdone : trim usageText ≠ "[DONE]".toList := by
    rw [hlist]
    decide +kernel
  have hread : reader.fromStr usageText = some (.object [("usage", .object usage)]) := by
    unfold reader
    dsimp only
    rw [if_pos rfl]
  unfold lineUsage
  rw [hdata]
  simp only [if_neg hdone, usageOf, hread, Option.bind_some]
  rfl

end Sample

open Sample in
/-- A stream in ASCII may be cut anywhere. -/
theorem frameFree_ascii : ∀ bs, concat bs = (usageLines 'a').utf8Encode → FrameFree reader bs := by
  have hsmall : ((usageLines 'a').all fun c => c.toNat ≤ 127) = true := by
    have hlist : usageText = _ := String.toList_ofList
    unfold usageLines
    rw [hlist]
    decide +kernel
  have hbills : Bills reader (usageLines 'a') := bills_usageLines (by decide)
  exact ((frameFree_iff reader).2 _ hbills).mpr fun c hc =>
    Char.utf8Size_eq_one_iff.mpr (of_decide_eq_true (List.all_eq_true.mp hsmall c hc))

open Sample in
/-- A stream that is cut after the first byte of its first character is not billed. -/
theorem cut_character_unbilled :
    ¬ FrameFree reader [(usageLines 'é').utf8Encode.extract 0 1,
      (usageLines 'é').utf8Encode.extract 1 (usageLines 'é').utf8Encode.size] := by
  obtain ⟨hleft, hright⟩ := fromUtf8_cut (a := []) (b := (usageLines 'é').tail) (c := 'é')
    (by decide) rfl rfl
  have hbills : Bills reader (usageLines 'é') := bills_usageLines (by decide)
  refine not_frameFree ?_ ?_ hbills
  · have hsize : 1 ≤ (usageLines 'é').utf8Encode.size := by decide +kernel
    rw [concat, List.foldr_cons, List.foldr_cons, List.foldr_nil, ByteArray.append_empty,
      ByteArray.extract_append_extract, Nat.zero_min, Nat.max_eq_right hsize,
      ByteArray.extract_zero_size]
  · simp only [List.mem_cons, List.not_mem_nil, or_false, forall_eq_or_imp, forall_eq]
    exact ⟨hleft, hright⟩

end Inferx.Gateway
