import Inferx.Selector.Grammar

/-!
# What the parser reads, exactly

The tokens of a text are a stream: words, operators and errors, and the end. On a
stream no parser function runs off the end, each leaves a stream, and what it took are
tokens of the dialect `accepted`. A text is read as documented just when whatever the
parser or the documentation allows in it is allowed by both.
-/

namespace Inferx.Selector

/-! ## Streams of tokens -/

theorem scanWord_chars (s : List Char) : ∀ c ∈ (scanWord s).1, isWordChar c = true := by
  induction s with
  | nil => exact fun c hc => absurd hc List.not_mem_nil
  | cons d s ih =>
    unfold scanWord
    split
    next => exact fun c hc => absurd hc List.not_mem_nil
    next hnul =>
      split
      next => exact fun c hc => absurd hc List.not_mem_nil
      next hbreak =>
        intro c hc
        rcases List.mem_cons.mp hc with rfl | hc
        · rw [Bool.or_eq_true, not_or, Bool.not_eq_true, Bool.not_eq_true] at hbreak
          exact isWordChar_iff.mpr ⟨hnul, hbreak⟩
        · exact ih c hc

/-- An operator, or no token at all. -/
def SymbolItem (i : ScannedItem) : Prop :=
  i.tok = .error ∨ string2Token i.literal = some i.tok ∧ ∀ c ∈ i.literal, isSpecialSymbol c = true

theorem SymbolItem.context {i : ScannedItem} (h : SymbolItem i) :
    i.inContext .values ≠ .identifier := by
  unfold ScannedItem.inContext
  rcases h with h | ⟨htok, hchars⟩
  · rw [h]
    decide
  · obtain ⟨t, lit⟩ := i
    dsimp only at htok hchars
    show (if t = .isIn ∨ t = .notIn then .identifier else t) ≠ .identifier
    rw [string2Token_text htok] at hchars
    -- the two operators that are words are no special symbols
    rcases eq_or_ne t .isIn with rfl | hin
    · exact absurd (hchars 'i' List.mem_cons_self) (by decide)
    · rcases eq_or_ne t .notIn with rfl | hnot
      · exact absurd (hchars 'n' List.mem_cons_self) (by decide)
      · rw [if_neg (not_or.mpr ⟨hin, hnot⟩)]
        -- no text stands for an identifier
        rintro rfl
        rw [string2Token_text htok] at htok
        cases htok

theorem scanSymbol_item {buf : List Char} {last : Option ScannedItem} {s : List Char}
    (hbuf : ∀ c ∈ buf, isSpecialSymbol c = true) (hlast : ∀ i ∈ last, SymbolItem i) :
    SymbolItem (scanSymbol buf last s).1 := by
  have hnone : ∀ b, SymbolItem (last.getD (scanSymbol.noSymbol b)) := by
    intro b
    rcases last with _ | i
    · exact .inl rfl
    · exact hlast i rfl
  induction s generalizing buf last with
  | nil => exact hnone buf
  | cons c s ih =>
    unfold scanSymbol
    split
    next => exact hnone buf
    next =>
      split
      next hc =>
        have hbuf' : ∀ d ∈ buf ++ [c], isSpecialSymbol d = true := by
          intro d hd
          rcases List.mem_append.mp hd with hd | hd
          · exact hbuf d hd
          · exact List.mem_singleton.mp hd ▸ hc
        split
        next tok htok =>
          have hitem : SymbolItem ⟨tok, buf ++ [c]⟩ := .inr ⟨htok, hbuf'⟩
          exact ih hbuf' (fun i hi => Option.some.inj hi ▸ hitem) fun _ => hitem
        next =>
          split
          next i => exact hlast i rfl
          next => exact ih hbuf' hlast hnone
      next => exact hnone buf

/-- A token before the end. -/
def Genuine (i : ScannedItem) : Prop := (∃ w, IsWord w ∧ i = wordItem w) ∨ SymbolItem i

inductive Stream : List ScannedItem → Prop where
  | done : Stream [endItem]
  | more {i items} : Genuine i → Stream items → Stream (i :: items)

theorem Genuine.ne_end {i : ScannedItem} (h : Genuine i) : i.tok ≠ .endOfString := by
  rcases h with ⟨w, -, rfl⟩ | h | ⟨h, -⟩
  · exact wordToken_ne w
  · rw [h]
    decide
  · exact (string2Token_ne h).1

theorem lex_genuine (s : List Char) : (lex s).1 = endItem ∨ Genuine (lex s).1 := by
  unfold lex
  rcases hs : s.dropWhile isWhitespace with _ | ⟨c, rest⟩
  · exact .inl rfl
  · dsimp only
    split
    next => exact .inl rfl
    next hnul =>
      split
      next =>
        exact .inr (.inr (scanSymbol_item (fun _ hc => absurd hc List.not_mem_nil)
          fun _ hi => by cases hi))
      next hspecial =>
        have hblank : isWhitespace c = false := by
          have := List.head?_dropWhile_not isWhitespace s
          rw [hs] at this
          simpa using this
        refine .inr (.inl ⟨_, ⟨?_, scanWord_chars _⟩, rfl⟩)
        unfold scanWord
        rw [if_neg hnul, if_neg (by simp [hspecial, hblank])]
        exact List.cons_ne_nil _ _

theorem scan_stream (s : List Char) : Stream (scan s) := by
  induction hn : s.length using Nat.strong_induction_on generalizing s with
  | _ n ih =>
    rw [scan_eq]
    rcases lex_genuine s with h | h
    · rw [h]
      exact .done
    · rw [if_neg h.ne_end]
      exact .more h (ih _ (hn ▸ lex_length h.ne_end) _ rfl)

theorem Stream.ne_nil {items : List ScannedItem} (h : Stream items) : ∃ i rest, items = i :: rest := by
  cases h with
  | done => exact ⟨_, _, rfl⟩
  | more => exact ⟨_, _, rfl⟩

theorem context_eq {i : ScannedItem} {t : Token} (h : i.inContext .values = t) (ht : t ≠ .identifier) :
    i.tok = t := by
  unfold ScannedItem.inContext at h
  dsimp only at h
  split at h
  next => exact absurd h.symm ht
  next => exact h

/-- A word stands where the parser takes an identifier. -/
theorem Stream.word {i : ScannedItem} {items : List ScannedItem} (h : Stream (i :: items))
    (hi : i.inContext .values = .identifier) : ∃ w, IsWord w ∧ i = wordItem w ∧ Stream items := by
  cases h with
  | done => cases hi
  | more hg hs =>
    rcases hg with ⟨w, hw, rfl⟩ | hsym
    · exact ⟨w, hw, rfl, hs⟩
    · exact absurd hi hsym.context

/-- An operator, a bracket or a comma has its own text. -/
theorem Stream.operator {i : ScannedItem} {items : List ScannedItem} (h : Stream (i :: items))
    (hid : i.tok ≠ .identifier) (herr : i.tok ≠ .error) (hend : i.tok ≠ .endOfString) :
    i = ⟨i.tok, tokenText i.tok⟩ ∧ Stream items := by
  cases h with
  | done => exact absurd rfl hend
  | more hg hs =>
    refine ⟨?_, hs⟩
    rcases hg with ⟨w, -, rfl⟩ | hsym | ⟨htok, -⟩
    · rcases hw : string2Token w with _ | t
      · exact absurd (by show wordToken w = _; rw [wordToken, hw]; rfl) hid
      · have htok : wordToken w = t := by rw [wordToken, hw]; rfl
        show wordItem w = ⟨wordToken w, tokenText (wordToken w)⟩
        rw [htok, ← string2Token_text hw, ← htok]
        rfl
    · exact absurd hsym herr
    · rw [← string2Token_text htok]

/-- As `operator`, where the parser takes values. -/
theorem Stream.symbol {i : ScannedItem} {items : List ScannedItem} {t : Token} (h : Stream (i :: items))
    (hi : i.inContext .values = t) (hid : t ≠ .identifier) (herr : t ≠ .error)
    (hend : t ≠ .endOfString) : i = ⟨t, tokenText t⟩ ∧ Stream items := by
  obtain rfl := context_eq hi hid
  exact h.operator hid herr hend

theorem Stream.done_of {i : ScannedItem} {items : List ScannedItem} (h : Stream (i :: items))
    (hi : i.inContext .values = .endOfString) : i = endItem ∧ items = [] := by
  cases h with
  | done => exact ⟨rfl, rfl⟩
  | more hg => exact absurd (context_eq hi (by decide)) hg.ne_end

/-! ## Parser functions on a stream -/

/-- A stream is left, of which `P` holds, or an error is returned. -/
def Reads {α : Type} (P : α → List ScannedItem → Prop) :
    Except ParseError (α × List ScannedItem) → Prop
  | .ok (x, rest) => Stream rest ∧ P x rest
  | .error e => e ≠ .panic

theorem Reads.bind {α β : Type} {P : α → List ScannedItem → Prop} {Q : β → List ScannedItem → Prop}
    {m : Except ParseError (α × List ScannedItem)}
    {f : α × List ScannedItem → Except ParseError (β × List ScannedItem)} (h : Reads P m)
    (hf : ∀ x rest, Stream rest → P x rest → Reads Q (f (x, rest))) : Reads Q (m >>= f) := by
  rcases m with e | ⟨x, rest⟩
  · exact h
  · exact hf x rest h.1 h.2

theorem Reads.mono {α : Type} {P Q : α → List ScannedItem → Prop}
    {m : Except ParseError (α × List ScannedItem)} (h : Reads P m)
    (hPQ : ∀ x rest, P x rest → Q x rest) : Reads Q m := by
  rcases m with e | ⟨x, rest⟩
  · exact h
  · exact ⟨h.1, hPQ x rest h.2⟩

theorem found_ne (lit : List Char) (expected : String) : found lit expected ≠ .panic := by
  intro h
  cases h

/-- What a set holds when it is read. -/
structure ValueList (vs : List (List Char)) : Prop where
  values : ∀ v ∈ vs, IsValue v
  ne_nil : vs ≠ []
  last : vs.getLast? ≠ some []

theorem ValueList.word {w : List Char} (hw : IsWord w) : ValueList [w] :=
  ⟨fun _ hv => List.mem_singleton.mp hv ▸ .inr hw, List.cons_ne_nil _ _,
    fun h => hw.ne_nil (Option.some.inj h)⟩

theorem ValueList.cons {v : List Char} {vs : List (List Char)} (hv : IsValue v) (h : ValueList vs) :
    ValueList (v :: vs) := by
  refine ⟨fun u hu => ?_, List.cons_ne_nil _ _, ?_⟩
  · rcases List.mem_cons.mp hu with rfl | hu
    · exact hv
    · exact h.values u hu
  · rcases vs with _ | ⟨w, vs⟩
    · exact absurd rfl h.ne_nil
    · rw [List.getLast?_cons_cons]
      exact h.last

/-- Values behind a comma: the first is empty. -/
theorem ValueList.comma {vs : List (List Char)} (h : ValueList vs) {items rest : List ScannedItem}
    (hitems : commaItem :: items = valueItems vs ++ rest) :
    ∃ vs', vs = [] :: vs' ∧ ValueList vs' ∧ items = valueItems vs' ++ rest := by
  rcases vs with _ | ⟨v, vs⟩
  · exact absurd rfl h.ne_nil
  · by_cases hv : v = []
    · rcases vs with _ | ⟨u, vs⟩
      · exact absurd (by rw [hv]; rfl) h.last
      · refine ⟨u :: vs, by rw [hv], ⟨fun w hw => h.values w (List.mem_cons_of_mem v hw),
          List.cons_ne_nil _ _, ?_⟩, ?_⟩
        · have := h.last
          rwa [List.getLast?_cons_cons] at this
        · rw [hv, valueItems_cons [] (List.cons_ne_nil _ _)] at hitems
          exact (List.cons.inj hitems).2
    · -- a word is no comma
      have hw := (h.values v List.mem_cons_self).resolve_left hv
      have hhead : ∃ tail, valueItems (v :: vs) = wordItem v :: tail := by
        rcases vs with _ | ⟨u, vs⟩
        · exact ⟨[], valueItem_word hw⟩
        · rw [valueItems_cons v (List.cons_ne_nil _ _), valueItem_word hw]
          exact ⟨_, rfl⟩
      obtain ⟨tail, htail⟩ := hhead
      rw [htail] at hitems
      have hcomma : commaItem = wordItem v := (List.cons.inj hitems).1
      have hcontext : commaItem.inContext .values = .identifier := by
        rw [hcomma]
        exact word_context hw
      cases hcontext

theorem parseIdentifiersList_reads {items : List ScannedItem} (h : Stream items)
    (s : Finset (List Char)) :
    Reads (fun _ rest => ∃ vs rest', rest = closeItem :: rest' ∧ ValueList vs ∧
      items = valueItems vs ++ rest) (parseIdentifiersList s items) := by
  fun_induction parseIdentifiersList s items with
  | case1 => cases h
  | case2 s i items hi ih =>
    obtain ⟨w, hw, rfl, hs⟩ := h.word hi
    obtain ⟨j, rest, rfl⟩ := hs.ne_nil
    simp only [lookahead, Except.ok_bind]
    split
    next hj =>
      obtain ⟨rfl, -⟩ := hs.symbol hj (by decide) (by decide) (by decide)
      refine (ih hs).mono fun _ rest' => ?_
      rintro ⟨vs, tail, rfl, hvs, hitems⟩
      obtain ⟨vs', rfl, hvs', hrest⟩ := hvs.comma hitems
      refine ⟨w :: vs', tail, rfl, hvs'.cons (.inr hw), ?_⟩
      rw [valueItems_cons w hvs'.ne_nil, valueItem_word hw, hrest, List.append_assoc]
      rfl
    next hj =>
      obtain ⟨rfl, -⟩ := hs.symbol hj (by decide) (by decide) (by decide)
      exact ⟨hs, [w], rest, rfl, .word hw, by rw [valueItems, valueItem_word hw]; rfl⟩
    next => exact found_ne _ _
  | case3 s i hi =>
    obtain ⟨-, hs⟩ := h.symbol hi (by decide) (by decide) (by decide)
    cases hs
  | case4 s i hi s₁ j items hclosed =>
    rw [hi] at hclosed
    cases hclosed
  | case5 s i hi s₁ j items hclosed hj ih =>
    obtain ⟨rfl, hs⟩ := h.symbol hi (by decide) (by decide) (by decide)
    obtain ⟨rfl, hs'⟩ := hs.symbol hj (by decide) (by decide) (by decide)
    refine (ih hs').mono fun _ rest => ?_
    rintro ⟨vs, tail, rfl, hvs, hitems⟩
    refine ⟨[] :: [] :: vs, tail, rfl, (hvs.cons (.inl rfl)).cons (.inl rfl), ?_⟩
    rw [valueItems_cons [] (List.cons_ne_nil _ _), valueItems_cons [] hvs.ne_nil, hitems]
    rfl
  | case6 s i hi s₁ j items hclosed hj ih =>
    obtain ⟨rfl, hs⟩ := h.symbol hi (by decide) (by decide) (by decide)
    refine (ih hs).mono fun _ rest => ?_
    rintro ⟨vs, tail, rfl, hvs, hitems⟩
    refine ⟨[] :: vs, tail, rfl, hvs.cons (.inl rfl), ?_⟩
    rw [valueItems_cons [] hvs.ne_nil, hitems]
    rfl
  | case7 => exact found_ne _ _

/-- What is read of a set is what it holds. -/
theorem parseIdentifiersList_set {items : List ScannedItem} (h : Stream items) :
    Reads (fun t rest => ∃ vs rest', rest = closeItem :: rest' ∧ ValueList vs ∧
      items = valueItems vs ++ rest ∧ t = vs.toFinset) (parseIdentifiersList ∅ items) := by
  have hreads := parseIdentifiersList_reads h ∅
  rcases hparse : parseIdentifiersList ∅ items with e | ⟨t, rest⟩
  · rw [hparse] at hreads
    exact hreads
  · rw [hparse] at hreads
    obtain ⟨hs, vs, rest', rfl, hvs, hitems⟩ := hreads
    have hlist := parseIdentifiersList_list hvs.values hvs.ne_nil hvs.last ∅ (.inl rfl) rest'
    rw [← hitems, hparse, Finset.empty_union] at hlist
    exact ⟨hs, vs, rest', rfl, hvs, hitems, (Prod.mk.inj (Except.ok.inj hlist)).1⟩

theorem parseValues_reads {items : List ScannedItem} (h : Stream items) :
    Reads (fun t rest => t = ∅ ∨ ∃ vs, ValueList vs ∧
      items = openItem :: (valueItems vs ++ closeItem :: rest) ∧ t = vs.toFinset)
      (parseValues items) := by
  obtain ⟨i, items, rfl⟩ := h.ne_nil
  unfold parseValues
  simp only [consume, Except.ok_bind]
  split
  next hi =>
    obtain ⟨rfl, hs⟩ := h.symbol hi (by decide) (by decide) (by decide)
    have hlist : ∀ lit, Reads (fun t rest => t = ∅ ∨ ∃ vs, ValueList vs ∧
        openItem :: items = openItem :: (valueItems vs ++ closeItem :: rest) ∧ t = vs.toFinset) (do
          let list ← parseIdentifiersList ∅ items
          let close ← consume .values list.2
          if close.1.1 = Token.closedPar then return (list.1, close.2)
          else .error (found lit ", expected: ')'")) := by
      intro lit
      refine (parseIdentifiersList_set hs).bind fun t rest hrest => ?_
      rintro ⟨vs, rest', rfl, hvs, hitems, rfl⟩
      obtain ⟨-, hs'⟩ := hrest.symbol (t := .closedPar) rfl (by decide) (by decide) (by decide)
      exact ⟨hs', .inr ⟨vs, hvs, by rw [hitems], rfl⟩⟩
    obtain ⟨j, rest, rfl⟩ := hs.ne_nil
    simp only [lookahead, Except.ok_bind]
    split
    next => exact hlist _
    next => exact hlist _
    next hj =>
      obtain ⟨-, hs'⟩ := hs.symbol hj (by decide) (by decide) (by decide)
      exact ⟨hs', .inl rfl⟩
    next => exact found_ne _ _
  next => exact found_ne _ _

theorem parseExactValue_reads {items : List ScannedItem} (h : Stream items) :
    Reads (fun t rest => ∃ v, IsValue v ∧ items = valueItem v ++ rest ∧ t = {v})
      (parseExactValue items) := by
  obtain ⟨i, items, rfl⟩ := h.ne_nil
  unfold parseExactValue
  simp only [lookahead, consume, Except.ok_bind]
  split
  next => exact ⟨h, [], .inl rfl, rfl, rfl⟩
  next =>
    split
    next hi =>
      obtain ⟨w, hw, rfl, hs⟩ := h.word hi
      exact ⟨hs, w, .inr hw, by rw [valueItem_word hw]; rfl, rfl⟩
    next => exact found_ne _ _

theorem parseOperator_reads {items : List ScannedItem} (h : Stream items) :
    Reads (fun op rest => items = op.item ++ rest ∧ op ≠ .none ∧ op ≠ .exist ∧ op ≠ .doesNotExist)
      (parseOperator items) := by
  obtain ⟨i, items, rfl⟩ := h.ne_nil
  have hitem : ∀ {t}, i.tok = t → t ≠ .identifier → t ≠ .error → t ≠ .endOfString →
      i = ⟨t, tokenText t⟩ ∧ Stream items := by
    rintro _ rfl hid herr hend
    exact h.operator hid herr hend
  unfold parseOperator
  simp only [consume, Except.ok_bind]
  split
  all_goals first
    | exact found_ne _ _
    | obtain ⟨rfl, hs⟩ := hitem (by assumption) (by decide) (by decide) (by decide)
      exact ⟨hs, rfl, by decide, by decide, by decide⟩

theorem checkName_ne (name : List Char) : checkName name ≠ .error .panic := by
  unfold checkName
  split
  · intro h
    cases h
  · split
    · intro h
      cases h
    · split <;> · intro h; cases h

theorem validateLabelKey_ne (k : List Char) : validateLabelKey k ≠ .error .panic := by
  unfold validateLabelKey isQualifiedName
  split
  · exact checkName_ne _
  · split
    · intro h
      cases h
    · unfold isDNS1123Subdomain
      split
      · intro h
        cases h
      · split
        · exact checkName_ne _
        · intro h
          cases h
  · intro h
    cases h

theorem parseKey_reads {items : List ScannedItem} (h : Stream items) :
    Reads (fun x rest => IsWord x.1 ∧ validateLabelKey x.1 = .ok () ∧
      (x.2 = .doesNotExist ∧ items = notItem :: wordItem x.1 :: rest ∨
        (x.2 = .exist ∨ x.2 = .none) ∧ items = wordItem x.1 :: rest))
      (parseKeyAndInferOperator items) := by
  obtain ⟨i, items, rfl⟩ := h.ne_nil
  by_cases hi : i.inContext .values = .doesNotExist
  · obtain ⟨rfl, hs⟩ := h.symbol hi (by decide) (by decide) (by decide)
    obtain ⟨j, items, rfl⟩ := hs.ne_nil
    by_cases hj : j.inContext .values = .identifier
    · obtain ⟨w, hw, rfl, hs'⟩ := hs.word hj
      obtain ⟨next, rest, rfl⟩ := hs'.ne_nil
      rcases hvalid : validateLabelKey w with e | ⟨⟨⟩⟩
      · have herror : parseKeyAndInferOperator
            (notItem :: wordItem w :: next :: rest) = .error e := by
          simp only [parseKeyAndInferOperator, consume, Except.ok_bind, hj]
          show (validateLabelKey w >>= _) = _
          rw [hvalid]
          rfl
        show Reads _ (parseKeyAndInferOperator (notItem :: wordItem w :: next :: rest))
        rw [herror]
        exact fun he => validateLabelKey_ne w (he ▸ hvalid)
      · have hok := parseKey_not hw hvalid ['!'] next rest
        show Reads _ (parseKeyAndInferOperator (notItem :: wordItem w :: next :: rest))
        rw [show parseKeyAndInferOperator (notItem :: wordItem w :: next :: rest) = _ from hok]
        exact ⟨hs', hw, hvalid, .inl ⟨rfl, rfl⟩⟩
    · have herror : parseKeyAndInferOperator (notItem :: j :: items)
          = .error (found j.literal ", expected: identifier") := by
        simp only [parseKeyAndInferOperator, consume, Except.ok_bind,
          show notItem.inContext .values = .doesNotExist from rfl, if_true]
        show (if j.inContext .values = .identifier then _ else _) = _
        rw [if_neg hj]
      show Reads _ (parseKeyAndInferOperator (notItem :: j :: items))
      rw [herror]
      exact found_ne _ _
  · by_cases hid : i.inContext .values = .identifier
    · obtain ⟨w, hw, rfl, hs⟩ := h.word hid
      obtain ⟨next, rest, rfl⟩ := hs.ne_nil
      rcases hvalid : validateLabelKey w with e | ⟨⟨⟩⟩
      · have herror : parseKeyAndInferOperator (wordItem w :: next :: rest) = .error e := by
          simp only [parseKeyAndInferOperator, consume, Except.ok_bind, hid, reduceCtorEq, if_false]
          show (validateLabelKey w >>= _) = _
          rw [hvalid]
          rfl
        rw [herror]
        exact fun he => validateLabelKey_ne w (he ▸ hvalid)
      · rw [show parseKeyAndInferOperator (wordItem w :: next :: rest) = _ from
          parseKey_word hw hvalid next rest]
        refine ⟨hs, hw, hvalid, .inr ⟨?_, rfl⟩⟩
        dsimp only
        split
        · exact .inl rfl
        · exact .inr rfl
    · have herror : parseKeyAndInferOperator (i :: items)
          = .error (found i.literal ", expected: identifier") := by
        simp only [parseKeyAndInferOperator, consume, Except.ok_bind, hi, if_false]
        show (if i.inContext .values = .identifier then _ else _) = _
        rw [if_neg hid]
      rw [herror]
      exact found_ne _ _

theorem Requirement.new_eq_ok {k : List Char} {op : SelectionOp} {vals : Finset (List Char)}
    {r : Requirement} (h : Requirement.new k op vals = .ok r) : r = ⟨k, op, vals⟩ := by
  unfold Requirement.new at h
  obtain ⟨⟨⟩, -, h⟩ := Except.bind_eq_ok.mp h
  cases op <;> dsimp only at h <;> repeat' split at h
  all_goals first | cases h; rfl | cases h

theorem Requirement.new_set {k : List Char} {op : SelectionOp}
    {r : Requirement} (h : Requirement.new k op ∅ = .ok r) : op ≠ .isIn ∧ op ≠ .notIn := by
  unfold Requirement.new at h
  obtain ⟨⟨⟩, -, h⟩ := Except.bind_eq_ok.mp h
  constructor
  · rintro rfl
    cases h
  · rintro rfl
    cases h

theorem Requirement.new_ne {k : List Char} (hvalid : validateLabelKey k = .ok ()) {op : SelectionOp}
    (hop : op ≠ .none) (vals : Finset (List Char)) : Requirement.new k op vals ≠ .error .panic := by
  unfold Requirement.new
  rw [hvalid, Except.ok_bind]
  intro h
  cases op with
  | none => exact hop rfl
  | _ =>
    dsimp only at h
    repeat' split at h
    all_goals cases h

theorem Requirement.new_number {k v : List Char} {op : SelectionOp} {r : Requirement}
    (h : Requirement.new k op {v} = .ok r) (hop : op = .greaterThan ∨ op = .lessThan) :
    (parseU64 v).isSome = true := by
  unfold Requirement.new at h
  obtain ⟨⟨⟩, -, h⟩ := Except.bind_eq_ok.mp h
  rcases hop with rfl | rfl
  · dsimp only at h
    split at h
    next =>
      split at h
      next hall => exact hall v (Finset.mem_singleton_self v)
      next => cases h
    next => cases h
  · dsimp only at h
    split at h
    next =>
      split at h
      next hall => exact hall v (Finset.mem_singleton_self v)
      next => cases h
    next => cases h

/-- An operator that is about a value, but no set and no bound, is an exact one. -/
theorem SelectionOp.exact_of_ne {op : SelectionOp} (hnone : op ≠ .none) (hexist : op ≠ .exist)
    (hnot : op ≠ .doesNotExist) (hin : ¬ (op = .isIn ∨ op = .notIn))
    (hcompare : ¬ (op = .greaterThan ∨ op = .lessThan)) :
    op = .equals ∨ op = .doubleEquals ∨ op = .notEquals := by
  cases op with
  | none => exact absurd rfl hnone
  | exist => exact absurd rfl hexist
  | doesNotExist => exact absurd rfl hnot
  | isIn => exact absurd (.inl rfl) hin
  | notIn => exact absurd (.inr rfl) hin
  | greaterThan => exact absurd (.inl rfl) hcompare
  | lessThan => exact absurd (.inr rfl) hcompare
  | equals => exact .inl rfl
  | doubleEquals => exact .inr (.inl rfl)
  | notEquals => exact .inr (.inr rfl)

/-- **What is read as a requirement is one of the parser's dialect.** -/
theorem parseRequirement_reads {items : List ScannedItem} (h : Stream items) :
    Reads (fun r rest => ∃ pre, items = pre ++ rest ∧ accepted.Req pre r)
      (parseRequirement items) := by
  -- the result of `New`
  have hnew : ∀ {k : List Char} {op : SelectionOp} {vals : Finset (List Char)}
      {rest : List ScannedItem}, validateLabelKey k = .ok () → op ≠ .none → Stream rest →
      (∀ r, Requirement.new k op vals = .ok r → ∃ pre, items = pre ++ rest ∧
        accepted.Req pre ⟨k, op, vals⟩) →
      Reads (fun r rest => ∃ pre, items = pre ++ rest ∧ accepted.Req pre r)
        (Requirement.new k op vals >>= fun r => pure (r, rest)) := by
    intro k op vals rest hvalid hop hs hreq
    rcases hmade : Requirement.new k op vals with e | r
    · exact fun he => Requirement.new_ne hvalid hop vals (he ▸ hmade)
    · obtain rfl := Requirement.new_eq_ok hmade
      exact ⟨hs, hreq _ hmade⟩
  unfold parseRequirement
  refine (parseKey_reads h).bind fun x rest hs => ?_
  obtain ⟨k, op⟩ := x
  rintro ⟨hk, hvalid, ⟨hop, hitems⟩ | ⟨hop, hitems⟩⟩
  · dsimp only at hop hitems ⊢
    rw [hop, if_pos (.inr rfl)]
    exact hnew hvalid (by decide) hs fun _ _ => ⟨[notItem, wordItem k], hitems, .notExist hk hvalid⟩
  · dsimp only at hop hitems ⊢
    rcases hop with rfl | rfl
    · rw [if_pos (.inl rfl)]
      exact hnew hvalid (by decide) hs fun _ _ => ⟨[wordItem k], hitems, .exist hk hvalid⟩
    · rw [if_neg (by decide)]
      refine (parseOperator_reads hs).bind fun op rest₁ hs₁ => ?_
      rintro ⟨hop, hnone, hexist, hnot⟩
      dsimp only
      by_cases hin : op = .isIn ∨ op = .notIn
      · rw [if_pos hin]
        refine (parseValues_reads hs₁).bind fun t rest₂ hs₂ => ?_
        intro hvals
        refine hnew hvalid hnone hs₂ fun r hmade => ?_
        rcases hvals with rfl | ⟨vs, hvs, hrest, rfl⟩
        · exact absurd hin (not_or.mpr (Requirement.new_set hmade))
        · refine ⟨wordItem k :: (op.item ++ openItem :: (valueItems vs ++ [closeItem])), ?_, ?_⟩
          · rw [hitems, hop, hrest]
            simp only [List.cons_append, List.append_assoc, List.nil_append]
          · exact .set hk hvalid hin (fun v hv => ⟨hvs.values v hv, True.intro⟩) hvs.ne_nil
              (fun hone => hvs.last (by rw [hone]; rfl)) (.inr hvs.last)
      · rw [if_neg hin]
        refine (parseExactValue_reads hs₁).bind fun t rest₂ hs₂ => ?_
        rintro ⟨v, hv, hrest, rfl⟩
        refine hnew hvalid hnone hs₂ fun r hmade => ?_
        refine ⟨wordItem k :: (op.item ++ valueItem v), ?_, ?_⟩
        · rw [hitems, hop, hrest]
          simp only [List.cons_append, List.append_assoc]
        · by_cases hcompare : op = .greaterThan ∨ op = .lessThan
          · exact .compare True.intro hk hvalid hcompare hv (Requirement.new_number hmade hcompare)
          · have hexact := SelectionOp.exact_of_ne hnone hexist hnot hin hcompare
            exact .exact hk hvalid hexact hv True.intro

/-- **The loop reads its dialect and never panics.** -/
theorem parseLoop_reads {fuel : ℕ} {items : List ScannedItem} (h : Stream items)
    (hfuel : items.length < fuel) : parseLoop fuel items ≠ .error .panic ∧
      ∀ reqs, parseLoop fuel items = .ok reqs →
        ∃ pre, items = pre ++ [endItem] ∧ accepted.Whole pre reqs := by
  induction fuel generalizing items with
  | zero => exact absurd hfuel (Nat.not_lt_zero _)
  | succ fuel ih =>
    obtain ⟨i, items, rfl⟩ := h.ne_nil
    have hreads := parseRequirement_reads h
    rw [parseLoop]
    simp only [lookahead, Except.ok_bind]
    split
    -- a key and a `!` begin a requirement alike
    iterate 2
      · rcases hparse : parseRequirement (i :: items) with e | ⟨r, rest⟩
        · rw [hparse] at hreads
          exact ⟨fun he => hreads (by cases he; rfl), fun reqs hreqs => by cases hreqs⟩
        · rw [hparse] at hreads
          obtain ⟨hs, pre, hitems, hreq⟩ := hreads
          obtain ⟨j, rest, rfl⟩ := hs.ne_nil
          simp only [consume, Except.ok_bind]
          split
          next hj =>
            obtain ⟨rfl, rfl⟩ := hs.done_of hj
            refine ⟨fun he => (by cases he), fun reqs hreqs => ?_⟩
            cases hreqs
            exact ⟨pre, hitems, .inl (.one hreq)⟩
          next hj =>
            obtain ⟨rfl, hs'⟩ := hs.symbol hj (by decide) (by decide) (by decide)
            obtain ⟨l, rest, rfl⟩ := hs'.ne_nil
            have hlen : (l :: rest).length < fuel := by
              rw [hitems] at hfuel
              simp only [List.length_append, List.length_cons] at hfuel ⊢
              omega
            obtain ⟨hne, hok⟩ := ih hs' hlen
            simp only [Except.ok_bind]
            split
            next => exact ⟨fun he => (by cases he), fun reqs hreqs => (by cases hreqs)⟩
            next hl =>
              refine ⟨fun he => ?_, fun reqs hreqs => ?_⟩
              · rcases hrest : parseLoop fuel (l :: rest) with e | rs
                · rw [hrest] at he hne
                  cases he
                  exact hne rfl
                · rw [hrest] at he
                  cases he
              · obtain ⟨rs, hrest, hreqs⟩ := Except.bind_eq_ok.mp hreqs
                cases hreqs
                obtain ⟨pre', hpre', hwhole⟩ := hok rs hrest
                refine ⟨pre ++ commaItem :: pre', ?_, .inl ?_⟩
                · rw [hitems, hpre', List.append_assoc]
                  rfl
                · rcases hwhole with hrs | ⟨-, rfl, -⟩
                  · exact .cons hreq hrs
                  · -- behind a comma there is another requirement
                    obtain rfl : l = endItem := (List.cons.inj hpre').1
                    exact absurd ⟨by decide, by decide⟩ hl
          next => exact ⟨fun he => (by cases he), fun reqs hreqs => (by cases hreqs)⟩
    · next hi =>
      obtain ⟨rfl, rfl⟩ := h.done_of hi
      refine ⟨fun he => (by cases he), fun reqs hreqs => ?_⟩
      cases hreqs
      exact ⟨[], rfl, .inr ⟨True.intro, rfl, rfl⟩⟩
    · exact ⟨fun he => (by cases he), fun reqs hreqs => (by cases hreqs)⟩

theorem parse_reads (s : List Char) : parse s ≠ .error .panic ∧
    ∀ sel, parse s = .ok sel ↔ ∃ reqs, accepted.Found s reqs ∧ sel = sortByKey reqs := by
  obtain ⟨hne, hok⟩ := parseLoop_reads (scan_stream s) (Nat.lt_succ_self _)
  unfold parse
  dsimp only
  refine ⟨fun he => ?_, fun sel => ⟨fun h => ?_, ?_⟩⟩
  · rcases hloop : parseLoop ((scan s).length + 1) (scan s) with e | reqs
    · rw [hloop] at he hne
      cases he
      exact hne rfl
    · rw [hloop] at he
      cases he
  · obtain ⟨reqs, hloop, h⟩ := Except.bind_eq_ok.mp h
    cases h
    exact ⟨reqs, hok reqs hloop, rfl⟩
  · rintro ⟨reqs, haccepted, rfl⟩
    exact parse_complete haccepted

end Inferx.Selector
