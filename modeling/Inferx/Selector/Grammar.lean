import Inferx.Selector.Printer

/-!
# The grammar of selectors

The documented grammar and what the parser accepts differ in a few places: an empty
value at the end of a set and a `!` before a restriction are documented and not read,
`>`, `<`, a value of any characters, a text without a requirement and the line characters
are read and not documented. A dialect says which of these are allowed.

A text without a NUL is written with the tokens that the lexer finds in it, and with no
others (`Spells.scan`, `scan_spelled`).
-/

namespace Inferx.Selector

/-! ## Texts and tokens -/

def openItem : ScannedItem := ⟨.openPar, ['(']⟩

def closeItem : ScannedItem := ⟨.closedPar, [')']⟩

/-- What follows a requirement. -/
def ScannedItem.EndsReq (i : ScannedItem) : Prop := i.tok = .comma ∨ i.tok = .endOfString

instance (i : ScannedItem) : Decidable i.EndsReq := inferInstanceAs (Decidable (_ ∨ _))

theorem ScannedItem.EndsReq.context {i : ScannedItem} (h : i.EndsReq) :
    i.inContext .values = i.tok := by
  unfold ScannedItem.inContext
  rcases h with h | h <;> rw [h] <;> rfl

/-- A word is a value, also `in` and `notin`. -/
theorem word_context {w : List Char} (hw : IsWord w) :
    ScannedItem.inContext ⟨wordToken w, w⟩ .values = .identifier := by
  unfold ScannedItem.inContext wordToken
  rcases h : string2Token w with _ | t
  · rfl
  · rcases string2Token_word hw h with rfl | rfl <;> rfl

theorem valueItem_word {w : List Char} (hw : IsWord w) : valueItem w = [⟨wordToken w, w⟩] :=
  if_neg hw.ne_nil

def endItem : ScannedItem := ⟨.endOfString, []⟩

def notItem : ScannedItem := ⟨.doesNotExist, ['!']⟩

def wordItem (w : List Char) : ScannedItem := ⟨wordToken w, w⟩

theorem special_token {c : Char} (h : isSpecialSymbol c = true) : ∃ t, string2Token [c] = some t := by
  unfold isSpecialSymbol at h
  simp only [Bool.or_eq_true, beq_iff_eq] at h
  rcases h with (((((rfl | rfl) | rfl) | rfl) | rfl) | rfl) | rfl <;> exact ⟨_, rfl⟩

theorem three_specials {c d e : Char} {sym : List Char} (h : isSpecialSymbol c = true) :
    string2Token (c :: d :: e :: sym) = none := by
  rcases ht : string2Token (c :: d :: e :: sym) with _ | t
  · rfl
  · have htext := string2Token_text ht
    cases t with
    | notIn =>
      obtain rfl : c = 'n' := (List.cons.inj htext).1
      exact absurd h (by decide)
    | _ => simp [tokenText] at htext

/-- The text is written with these tokens and the blanks `blank` between them. -/
inductive Spells (blank : Char → Prop) : List Char → List ScannedItem → Prop where
  | nil : Spells blank [] []
  | blank {c s items} : blank c → Spells blank s items → Spells blank (c :: s) items
  | word {w s items} : IsWord w → Breaks s → Spells blank s items →
      Spells blank (w ++ s) (wordItem w :: items)
  | symbol {sym t s items} : string2Token sym = some t → (∀ c ∈ sym, isSpecialSymbol c = true) →
      StopsAt sym s → Spells blank s items → Spells blank (sym ++ s) (⟨t, sym⟩ :: items)

/-- The documented delimiters. -/
def Delimiter (c : Char) : Prop := c = ' ' ∨ c = '\t'

theorem Delimiter.isWhitespace {c : Char} (h : Delimiter c) : isWhitespace c = true := by
  rcases h with rfl | rfl <;> rfl

/-- The tokens that a text is written with are the ones that the lexer finds. -/
theorem Spells.scan {blank : Char → Prop} (hblank : ∀ c, blank c → isWhitespace c = true)
    {s : List Char} {items : List ScannedItem} (h : Spells blank s items) :
    Selector.scan s = items ++ [endItem] := by
  induction h with
  | nil => rfl
  | blank hc _ ih => rw [scan_blank _ (hblank _ hc), ih]
  | word hw hbreaks _ ih =>
    rw [scan_word hw hbreaks, ih]
    rfl
  | @symbol sym t s items ht hsym hstop _ ih =>
    rcases sym with _ | ⟨c, _ | ⟨d, _ | ⟨e, sym⟩⟩⟩
    · cases ht
    · rw [List.singleton_append, scan_symbol ht (hsym c List.mem_cons_self) hstop, ih]
      rfl
    · have hc := hsym c List.mem_cons_self
      have hd := hsym d (List.mem_cons_of_mem c List.mem_cons_self)
      obtain ⟨u, hu⟩ : ∃ u, string2Token [c] = some u := special_token hc
      show Selector.scan (c :: d :: s) = _
      rw [scan_symbol₂ hu ht hc hd hstop, ih]
      rfl
    · exact absurd ht (by rw [three_specials (hsym c List.mem_cons_self)]; nofun)

theorem Spells.mono {blank blank' : Char → Prop} (hblank : ∀ c, blank c → blank' c) {s : List Char}
    {items : List ScannedItem} (h : Spells blank s items) : Spells blank' s items := by
  induction h with
  | nil => exact .nil
  | blank hc _ ih => exact .blank (hblank _ hc) ih
  | word hw hbreaks _ ih => exact .word hw hbreaks ih
  | symbol ht hsym hstop _ ih => exact .symbol ht hsym hstop ih

/-- An operator is cut off before the text goes on, or one more character belongs to it. -/
theorem stops_or_longer (c : Char) {tail : List Char} (hnul : '\x00' ∉ tail) :
    StopsAt [c] tail ∨ ∃ d rest u, tail = d :: rest ∧ isSpecialSymbol d = true ∧
      string2Token [c, d] = some u := by
  rcases tail with _ | ⟨d, rest⟩
  · refine .inl fun _ _ h => ?_
    cases h
  · have hd : d ≠ '\x00' := fun h => hnul (h ▸ List.mem_cons_self)
    by_cases hspecial : isSpecialSymbol d = true
    · rcases hu : string2Token [c, d] with _ | u
      · refine .inl fun _ _ h => ?_
        obtain ⟨rfl, rfl⟩ := List.cons.inj h
        exact ⟨hd, fun _ => hu⟩
      · exact .inr ⟨d, rest, u, rfl, hspecial, hu⟩
    · refine .inl fun _ _ h => ?_
      obtain ⟨rfl, rfl⟩ := List.cons.inj h
      exact ⟨hd, fun hspecial' => absurd hspecial' hspecial⟩

/-- No operator has three characters. -/
theorem stops_two {c d : Char} {tail : List Char} (hc : isSpecialSymbol c = true)
    (hnul : '\x00' ∉ tail) : StopsAt [c, d] tail := by
  rintro e rest rfl
  exact ⟨fun h => hnul (h ▸ List.mem_cons_self), fun _ => three_specials hc⟩

/-- A word is cut off before the first character that is no part of it. -/
theorem breaks_dropWhile {s : List Char} (hnul : '\x00' ∉ s) : Breaks (s.dropWhile isWordChar) := by
  intro c rest hrest
  have hmem : c ∈ s := (List.dropWhile_suffix isWordChar).subset (by rw [hrest]; exact List.mem_cons_self)
  have hc : c ≠ '\x00' := fun h => hnul (h ▸ hmem)
  have hout := List.head?_dropWhile_not isWordChar s
  rw [hrest] at hout
  have hword : isWordChar c = false := by simpa using hout
  refine ⟨hc, ?_⟩
  by_contra hno
  rw [Bool.or_eq_true, not_or, Bool.not_eq_true, Bool.not_eq_true] at hno
  exact absurd (isWordChar_iff.mpr ⟨hc, hno⟩) (by rw [hword]; exact Bool.false_ne_true)

/-- A text that begins with a character of words begins with a word. -/
theorem word_prefix {c : Char} {s : List Char} (hnul : '\x00' ∉ c :: s) (hc : isWordChar c = true) :
    ∃ w tail, c :: s = w ++ tail ∧ IsWord w ∧ Breaks tail ∧ tail.length ≤ s.length := by
  refine ⟨(c :: s).takeWhile isWordChar, (c :: s).dropWhile isWordChar,
    List.takeWhile_append_dropWhile.symm, ⟨?_, ?_⟩, breaks_dropWhile hnul, ?_⟩
  · rw [List.takeWhile_cons_of_pos hc]
    exact List.cons_ne_nil _ _
  · exact List.all_eq_true.mp List.all_takeWhile
  · rw [List.dropWhile_cons_of_pos hc]
    exact (List.dropWhile_suffix _).length_le

/-- **A text without a NUL is written with the tokens that the lexer finds.** -/
theorem scan_spelled {s : List Char} (hnul : '\x00' ∉ s) :
    ∃ items, scan s = items ++ [endItem] ∧ Spells (isWhitespace · = true) s items := by
  induction hn : s.length using Nat.strong_induction_on generalizing s with
  | _ n ih =>
    rcases s with _ | ⟨c, s⟩
    · exact ⟨[], rfl, .nil⟩
    have hrest : '\x00' ∉ s := fun h => hnul (List.mem_cons_of_mem c h)
    rw [List.length_cons] at hn
    by_cases hblank : isWhitespace c = true
    · obtain ⟨items, hscan, hspells⟩ := ih s.length (by omega) hrest rfl
      exact ⟨items, (scan_blank s hblank).trans hscan, .blank hblank hspells⟩
    by_cases hspecial : isSpecialSymbol c = true
    · obtain ⟨t, ht⟩ := special_token hspecial
      rcases stops_or_longer c hrest with hstop | ⟨d, rest, u, rfl, hd, hu⟩
      · obtain ⟨items, hscan, hspells⟩ := ih s.length (by omega) hrest rfl
        refine ⟨⟨t, [c]⟩ :: items, ?_, .symbol ht ?_ hstop hspells⟩
        · rw [scan_symbol ht hspecial hstop, hscan]
          rfl
        · exact fun _ h => List.mem_singleton.mp h ▸ hspecial
      · have hrest' : '\x00' ∉ rest := fun h => hrest (List.mem_cons_of_mem d h)
        rw [List.length_cons] at hn
        obtain ⟨items, hscan, hspells⟩ := ih rest.length (by omega) hrest' rfl
        have hstop : StopsAt [c, d] rest := stops_two hspecial hrest'
        refine ⟨⟨u, [c, d]⟩ :: items, ?_, .symbol hu ?_ hstop hspells⟩
        · rw [scan_symbol₂ ht hu hspecial hd hstop, hscan]
          rfl
        · intro e he
          rcases List.mem_cons.mp he with rfl | he
          · exact hspecial
          · exact List.mem_singleton.mp he ▸ hd
    · -- a word, up to the next operator or blank
      have hc : isWordChar c = true := isWordChar_iff.mpr
        ⟨fun h => hnul (h ▸ List.mem_cons_self), Bool.not_eq_true _ ▸ hspecial, Bool.not_eq_true _ ▸ hblank⟩
      obtain ⟨w, tail, hs, hword, hbreaks, hlen⟩ := word_prefix hnul hc
      obtain ⟨items, hscan, hspells⟩ := ih tail.length (by omega)
        (fun h => hnul (hs ▸ List.mem_append_right w h)) rfl
      rw [hs]
      refine ⟨wordItem w :: items, ?_, .word hword hbreaks hspells⟩
      rw [scan_word hword hbreaks, hscan]
      rfl

/-! ## Dialects -/

/-- What a dialect allows. -/
structure Dialect where
  /-- blanks between the tokens -/
  blank : Char → Prop
  /-- values that are not empty -/
  value : List Char → Prop
  /-- an empty value at the end of a set -/
  trailing : Prop
  /-- `>` and `<` -/
  compare : Prop
  /-- a `!` before a restriction -/
  negated : Prop
  /-- a text without a requirement -/
  empty : Prop

/-- A VALUE of the documentation. -/
def IsDocumentedValue (v : List Char) : Prop :=
  v.length ≤ 63 ∧ ∀ c ∈ v, (isAlnum c || c == '_' || c == '-' || c == '.') = true

def documented : Dialect := ⟨Delimiter, IsDocumentedValue, True, False, True, False⟩

/-- What the parser reads. -/
def accepted : Dialect := ⟨(isWhitespace · = true), fun _ => True, False, True, False, True⟩

/-- `<requirement>`; a `!` before a restriction has no meaning of its own in the documentation. -/
inductive Dialect.Req (g : Dialect) : List ScannedItem → Requirement → Prop where
  | exist {k} : IsWord k → validateLabelKey k = .ok () → g.Req [wordItem k] ⟨k, .exist, ∅⟩
  | notExist {k} : IsWord k → validateLabelKey k = .ok () →
      g.Req [notItem, wordItem k] ⟨k, .doesNotExist, ∅⟩
  | exact {k op v} : IsWord k → validateLabelKey k = .ok () →
      op = .equals ∨ op = .doubleEquals ∨ op = .notEquals → IsValue v → g.value v →
      g.Req (wordItem k :: (op.item ++ valueItem v)) ⟨k, op, {v}⟩
  | compare {k op v} : g.compare → IsWord k → validateLabelKey k = .ok () →
      op = .greaterThan ∨ op = .lessThan → IsValue v → (parseU64 v).isSome = true →
      g.Req (wordItem k :: (op.item ++ valueItem v)) ⟨k, op, {v}⟩
  | set {k op vs} : IsWord k → validateLabelKey k = .ok () → op = .isIn ∨ op = .notIn →
      (∀ v ∈ vs, IsValue v ∧ g.value v) → vs ≠ [] → vs ≠ [[]] →
      g.trailing ∨ vs.getLast? ≠ some [] →
      g.Req (wordItem k :: (op.item ++ openItem :: (valueItems vs ++ [closeItem])))
        ⟨k, op, vs.toFinset⟩
  | negated {items r} : g.negated → items.head? ≠ some notItem → g.Req items r → r.op ≠ .exist →
      g.Req (notItem :: items) r

/-- `<selector-syntax>`. -/
inductive Dialect.Reqs (g : Dialect) : List ScannedItem → List Requirement → Prop where
  | one {items r} : g.Req items r → g.Reqs items [r]
  | cons {items r rest rs} : g.Req items r → g.Reqs rest rs →
      g.Reqs (items ++ commaItem :: rest) (r :: rs)

def Dialect.Whole (g : Dialect) (items : List ScannedItem) (reqs : List Requirement) : Prop :=
  g.Reqs items reqs ∨ g.empty ∧ items = [] ∧ reqs = []

/-- The text is a selector of the dialect with these requirements. -/
def Dialect.Sentence (g : Dialect) (s : List Char) (reqs : List Requirement) : Prop :=
  ∃ items, Spells g.blank s items ∧ g.Whole items reqs

/-- The tokens that the lexer finds are a selector of the dialect with these requirements. -/
def Dialect.Found (g : Dialect) (s : List Char) (reqs : List Requirement) : Prop :=
  ∃ items, scan s = items ++ [endItem] ∧ g.Whole items reqs

/-- A text that is written in the dialect is found in it. -/
theorem Dialect.Sentence.found {g : Dialect} (hblank : ∀ c, g.blank c → isWhitespace c = true)
    {s : List Char} {reqs : List Requirement} (h : g.Sentence s reqs) : g.Found s reqs := by
  obtain ⟨items, hspells, hwhole⟩ := h
  exact ⟨items, hspells.scan hblank, hwhole⟩

/-- A text without a NUL that is found in the dialect is written in it. -/
theorem Dialect.Found.sentence {g : Dialect} (hblank : ∀ c, isWhitespace c = true → g.blank c)
    {s : List Char} (hnul : '\x00' ∉ s) {reqs : List Requirement} (h : g.Found s reqs) :
    g.Sentence s reqs := by
  obtain ⟨items, hscan, hwhole⟩ := h
  obtain ⟨items', hscan', hspells⟩ := scan_spelled hnul
  obtain rfl := List.append_cancel_right (hscan'.symm.trans hscan)
  exact ⟨items', hspells.mono hblank, hwhole⟩

theorem Dialect.Req.mono {g g' : Dialect} (hvalue : ∀ v, g.value v → g'.value v)
    (htrailing : g.trailing → g'.trailing) (hcompare : g.compare → g'.compare)
    (hnegated : g.negated → g'.negated) {items : List ScannedItem} {r : Requirement}
    (h : g.Req items r) : g'.Req items r := by
  induction h with
  | exist hk hvalid => exact .exist hk hvalid
  | notExist hk hvalid => exact .notExist hk hvalid
  | exact hk hvalid hop hv hg => exact .exact hk hvalid hop hv (hvalue _ hg)
  | compare hg hk hvalid hop hv hnum => exact .compare (hcompare hg) hk hvalid hop hv hnum
  | set hk hvalid hop hvs hne hne' hlast =>
    exact .set hk hvalid hop (fun v hv => ⟨(hvs v hv).1, hvalue v (hvs v hv).2⟩) hne hne'
      (hlast.imp_left htrailing)
  | negated hg hhead _ hexist ih => exact .negated (hnegated hg) hhead ih hexist

theorem Dialect.Reqs.mono {g g' : Dialect} (hreq : ∀ items r, g.Req items r → g'.Req items r)
    {items : List ScannedItem} {reqs : List Requirement} (h : g.Reqs items reqs) :
    g'.Reqs items reqs := by
  induction h with
  | one h => exact .one (hreq _ _ h)
  | cons h _ ih => exact .cons (hreq _ _ h) ih

/-! ## The values of a set -/

theorem parseIdentifiersList_last {w : List Char} (hw : IsWord w) (s : Finset (List Char))
    (rest : List ScannedItem) :
    parseIdentifiersList s (wordItem w :: closeItem :: rest) = .ok (insert w s, closeItem :: rest) := by
  rw [parseIdentifiersList, wordItem, word_context hw]
  rfl

theorem parseIdentifiersList_word {w : List Char} (hw : IsWord w) (s : Finset (List Char))
    (rest : List ScannedItem) :
    parseIdentifiersList s (wordItem w :: commaItem :: rest)
      = parseIdentifiersList (insert w s) (commaItem :: rest) := by
  rw [parseIdentifiersList, wordItem, word_context hw]
  rfl

/-- What a comma makes of the values so far. -/
def afterComma (s : Finset (List Char)) : Finset (List Char) := if s.card = 0 then insert [] s else s

theorem parseIdentifiersList_comma₂ (s : Finset (List Char)) (rest : List ScannedItem) :
    parseIdentifiersList s (commaItem :: commaItem :: rest)
      = parseIdentifiersList (insert [] (afterComma s)) rest := by
  rw [parseIdentifiersList]
  rfl

theorem parseIdentifiersList_comma {w : List Char} (hw : IsWord w) (s : Finset (List Char))
    (rest : List ScannedItem) :
    parseIdentifiersList s (commaItem :: wordItem w :: rest)
      = parseIdentifiersList (afterComma s) (wordItem w :: rest) := by
  rw [parseIdentifiersList]
  show (if _ then _ else if (wordItem w).inContext .values = Token.comma then _ else _) = _
  rw [if_neg (by decide), wordItem, word_context hw, if_neg (by decide)]
  rfl

theorem insert_afterComma (s : Finset (List Char)) : insert [] (afterComma s) = insert [] s := by
  unfold afterComma
  split
  next => exact Finset.insert_idem [] s
  next => rfl

/-- **The values of a set**: any with a word at the end. -/
theorem parseIdentifiersList_list {vs : List (List Char)} (hvs : ∀ v ∈ vs, IsValue v)
    (hne : vs ≠ []) (hlast : vs.getLast? ≠ some []) (s : Finset (List Char))
    (hs : s = ∅ ∨ [] ∈ s ∨ vs.head? ≠ some []) (rest : List ScannedItem) :
    parseIdentifiersList s (valueItems vs ++ closeItem :: rest)
      = .ok (s ∪ vs.toFinset, closeItem :: rest) := by
  induction hn : vs.length using Nat.strong_induction_on generalizing vs s with
  | _ n ih =>
    have hword : ∀ {v}, v ∈ vs → v ≠ [] → IsWord v := fun hv hv' => (hvs _ hv).resolve_left hv'
    rcases vs with _ | ⟨v, _ | ⟨v', vs'⟩⟩
    · exact absurd rfl hne
    · have hv : IsWord v := hword List.mem_cons_self fun h => hlast (by rw [h]; rfl)
      show parseIdentifiersList s (valueItem v ++ _) = _
      rw [valueItem_word hv]
      show parseIdentifiersList s (wordItem v :: closeItem :: rest) = _
      rw [parseIdentifiersList_last hv, List.toFinset_cons, List.toFinset_nil, Finset.union_insert,
        Finset.union_empty]
    · have hlast' : (v' :: vs').getLast? ≠ some [] := by
        rwa [List.getLast?_cons_cons] at hlast
      have hvs' : ∀ u ∈ v' :: vs', IsValue u := fun u hu => hvs u (List.mem_cons_of_mem v hu)
      -- the values behind an empty one
      have htail : v' = [] → vs' ≠ [] ∧ vs'.getLast? ≠ some [] := by
        rintro rfl
        rcases vs' with _ | ⟨u, vs'⟩
        · exact absurd rfl hlast'
        · exact ⟨List.cons_ne_nil _ _, by rwa [List.getLast?_cons_cons] at hlast'⟩
      have hskip : v' = [] → ∀ t, [] ∈ t →
          parseIdentifiersList t (valueItems vs' ++ closeItem :: rest)
            = .ok (t ∪ vs'.toFinset, closeItem :: rest) := by
        intro hv' t ht
        obtain ⟨hne', hlast''⟩ := htail hv'
        exact ih vs'.length (by rw [← hn, List.length_cons, List.length_cons]; omega) (fun u hu => hvs' u (List.mem_cons_of_mem v' hu))
          hne' hlast'' t (.inr (.inl ht)) rfl
      have hnext : v' ≠ [] → ∀ t, parseIdentifiersList t (valueItems (v' :: vs') ++ closeItem :: rest)
            = .ok (t ∪ (v' :: vs').toFinset, closeItem :: rest) := by
        intro hv' t
        exact ih (v' :: vs').length (by rw [← hn]; simp) hvs' (List.cons_ne_nil _ _) hlast' t
          (.inr (.inr fun h => hv' (Option.some.inj h))) rfl
      have hitems : v' = [] → valueItems (v' :: vs') = commaItem :: valueItems vs' := by
        rintro rfl
        rcases vs' with _ | ⟨u, vs'⟩
        · exact absurd rfl (htail rfl).1
        · rfl
      have hwordItems : v' ≠ [] → ∃ items, valueItems (v' :: vs') ++ closeItem :: rest
          = wordItem v' :: items := by
        intro hv'
        have hw := (hvs' v' List.mem_cons_self).resolve_left hv'
        rcases vs' with _ | ⟨u, vs'⟩
        · exact ⟨_, by rw [valueItems, valueItem_word hw]; rfl⟩
        · exact ⟨_, by rw [valueItems, valueItem_word hw]; rfl; nofun⟩
      -- from the comma behind the first value
      have hcomma : ∀ t, parseIdentifiersList t (commaItem :: (valueItems (v' :: vs') ++ closeItem :: rest))
          = .ok ((if v' = [] then insert [] t else afterComma t) ∪ (v' :: vs').toFinset,
            closeItem :: rest) := by
        intro t
        by_cases hv' : v' = []
        · rw [if_pos hv', hitems hv', List.cons_append, parseIdentifiersList_comma₂, insert_afterComma,
            hskip hv' _ (Finset.mem_insert_self _ _), hv', List.toFinset_cons, Finset.union_insert,
            Finset.insert_union, Finset.insert_idem]
        · obtain ⟨items, hitems'⟩ := hwordItems hv'
          have hw := (hvs' v' List.mem_cons_self).resolve_left hv'
          have hthen := hnext hv' (afterComma t)
          rw [hitems'] at hthen ⊢
          rw [if_neg hv', parseIdentifiersList_comma hw, hthen]
      show parseIdentifiersList s ((valueItem v ++ commaItem :: valueItems (v' :: vs')) ++ _) = _
      rw [List.append_assoc, List.cons_append]
      by_cases hv : v = []
      · rw [hv]
        show parseIdentifiersList s (commaItem :: _) = _
        have hset : (if v' = [] then insert [] s else afterComma s) = insert [] s := by
          split
          next => rfl
          next =>
            rcases hs with rfl | hs | hs
            · exact if_pos Finset.card_empty
            · unfold afterComma
              rw [if_neg (Finset.card_ne_zero.mpr ⟨_, hs⟩), Finset.insert_eq_of_mem hs]
            · exact absurd (congrArg some hv) hs
        rw [hcomma, hset, List.toFinset_cons (a := []), Finset.union_insert, Finset.insert_union]
      · have hw := hword List.mem_cons_self hv
        rw [valueItem_word hw]
        show parseIdentifiersList s (wordItem v :: commaItem :: _) = _
        have hset : ((if v' = [] then insert [] (insert v s) else afterComma (insert v s)) ∪
            (v' :: vs').toFinset) = s ∪ (v :: v' :: vs').toFinset := by
          have hcard : (insert v s).card ≠ 0 :=
            Finset.card_ne_zero.mpr ⟨v, Finset.mem_insert_self v s⟩
          rw [List.toFinset_cons (a := v), Finset.union_insert]
          split
          next hv' =>
            rw [hv', List.toFinset_cons, Finset.insert_union, Finset.insert_union,
              Finset.union_insert, Finset.insert_comm v, Finset.insert_idem]
          next =>
            unfold afterComma
            rw [if_neg hcard, Finset.insert_union]
        rw [parseIdentifiersList_word hw, hcomma, hset]

/-! ## What the parser reads -/

theorem parseExactValue_item {v : List Char} (hv : IsValue v) {next : ScannedItem}
    (hnext : next.EndsReq) (rest : List ScannedItem) :
    parseExactValue (valueItem v ++ next :: rest) = .ok ({v}, next :: rest) := by
  unfold parseExactValue
  rcases hv with rfl | hv
  · show (if next.inContext .values = _ ∨ _ then _ else _) = _
    rw [hnext.context, if_pos hnext.symm]
    rfl
  · rw [valueItem_word hv, List.singleton_append]
    show (if ScannedItem.inContext _ _ = _ ∨ _ then _ else _) = _
    rw [word_context hv, if_neg (by decide)]
    show (if ScannedItem.inContext _ _ = _ then _ else _) = _
    rw [word_context hv]
    rfl

theorem ScannedItem.context_ends {i : ScannedItem} :
    (i.inContext .values = .endOfString ∨ i.inContext .values = .comma) ↔ i.EndsReq := by
  unfold ScannedItem.inContext ScannedItem.EndsReq
  by_cases h : i.tok = .isIn ∨ i.tok = .notIn
  · simp only [if_pos h]
    rcases h with h | h <;> simp [h]
  · simp only [if_neg h]
    exact Or.comm

/-- A key with an operator behind it, or nothing. -/
theorem parseKey_word {k : List Char} (hk : IsWord k) (hvalid : validateLabelKey k = .ok ())
    (i : ScannedItem) (rest : List ScannedItem) :
    parseKeyAndInferOperator (⟨wordToken k, k⟩ :: i :: rest)
      = .ok ((k, if i.EndsReq then .exist else .none), i :: rest) := by
  simp only [parseKeyAndInferOperator, consume, lookahead, Except.ok_bind, word_context hk,
    reduceCtorEq, if_false, if_true, hvalid, ScannedItem.context_ends, ne_eq, not_false_eq_true,
    and_true, pure, Except.pure]
  split
  next => rfl
  next => rfl

theorem parseKey_not {k : List Char} (hk : IsWord k) (hvalid : validateLabelKey k = .ok ())
    (lit : List Char) (i : ScannedItem) (rest : List ScannedItem) :
    parseKeyAndInferOperator (⟨.doesNotExist, lit⟩ :: ⟨wordToken k, k⟩ :: i :: rest)
      = .ok ((k, .doesNotExist), i :: rest) := by
  have hnot : ScannedItem.inContext ⟨.doesNotExist, lit⟩ .values = .doesNotExist := rfl
  simp only [parseKeyAndInferOperator, consume, lookahead, Except.ok_bind, word_context hk, hnot,
    if_true, hvalid, ne_eq, not_true_eq_false, and_false, if_false, pure, Except.pure]

theorem valueItems_cons {vs : List (List Char)} (v : List Char) (hvs : vs ≠ []) :
    valueItems (v :: vs) = valueItem v ++ commaItem :: valueItems vs := by
  rcases vs with _ | ⟨w, vs⟩
  · exact absurd rfl hvs
  · rfl

/-- A list of values begins with a word or a comma. -/
theorem valueItems_head {vs : List (List Char)} (hvs : ∀ v ∈ vs, IsValue v) (hne : vs ≠ [])
    (hone : vs ≠ [[]]) : ∃ i items, valueItems vs = i :: items ∧
      (i.inContext .values = .identifier ∨ i.inContext .values = .comma) := by
  rcases vs with _ | ⟨v, vs⟩
  · exact absurd rfl hne
  · by_cases hv : v = []
    · have hvs' : vs ≠ [] := fun h => hone (by rw [hv, h])
      rw [hv, valueItems_cons [] hvs']
      exact ⟨commaItem, _, rfl, .inr rfl⟩
    · have hw := (hvs v List.mem_cons_self).resolve_left hv
      rcases vs with _ | ⟨u, vs⟩
      · exact ⟨wordItem v, [], valueItem_word hw, .inl (word_context hw)⟩
      · rw [valueItems_cons v (List.cons_ne_nil _ _), valueItem_word hw]
        exact ⟨wordItem v, _, rfl, .inl (word_context hw)⟩

theorem parseValues_list {vs : List (List Char)} (hvs : ∀ v ∈ vs, IsValue v) (hne : vs ≠ [])
    (hlast : vs.getLast? ≠ some []) (rest : List ScannedItem) :
    parseValues (openItem :: (valueItems vs ++ closeItem :: rest)) = .ok (vs.toFinset, rest) := by
  have hlist := parseIdentifiersList_list hvs hne hlast ∅ (.inl rfl) rest
  obtain ⟨i, items, hitems, hi⟩ := valueItems_head hvs hne fun h => hlast (by rw [h]; rfl)
  rw [Finset.empty_union, hitems, List.cons_append] at hlist
  rw [hitems, List.cons_append]
  unfold parseValues
  simp only [consume, lookahead, Except.ok_bind, show openItem.inContext .values = .openPar from rfl,
    if_true]
  rcases hi with hi | hi
  · rw [hi]
    show (parseIdentifiersList ∅ _ >>= _) = _
    rw [hlist]
    rfl
  · rw [hi]
    show (parseIdentifiersList ∅ _ >>= _) = _
    rw [hlist]
    rfl

theorem Requirement.new_valid {k : List Char} (h : validateLabelKey k = .ok ()) (op : SelectionOp)
    (vals : Finset (List Char)) (hop : op = .exist ∧ vals = ∅ ∨ op = .doesNotExist ∧ vals = ∅ ∨
      (op = .isIn ∨ op = .notIn) ∧ vals ≠ ∅ ∨
      (op = .equals ∨ op = .doubleEquals ∨ op = .notEquals) ∧ vals.card = 1 ∨
      (op = .greaterThan ∨ op = .lessThan) ∧ ∃ v, vals = {v} ∧ (parseU64 v).isSome = true) :
    Requirement.new k op vals = .ok ⟨k, op, vals⟩ := by
  unfold Requirement.new
  rw [h, Except.ok_bind]
  rcases hop with ⟨rfl, rfl⟩ | ⟨rfl, rfl⟩ | ⟨rfl | rfl, hvals⟩ | ⟨rfl | rfl | rfl, hvals⟩ |
    ⟨rfl | rfl, v, rfl, hnum⟩
  · exact if_pos Finset.card_empty
  · exact if_pos Finset.card_empty
  · exact if_neg (mt Finset.card_eq_zero.mp hvals)
  · exact if_neg (mt Finset.card_eq_zero.mp hvals)
  · exact if_pos hvals
  · exact if_pos hvals
  · exact if_pos hvals
  · have hall : ∀ u ∈ ({v} : Finset (List Char)), (parseU64 u).isSome = true :=
      fun u hu => Finset.mem_singleton.mp hu ▸ hnum
    exact (if_pos (Finset.card_singleton v)).trans (if_pos hall)
  · have hall : ∀ u ∈ ({v} : Finset (List Char)), (parseU64 u).isSome = true :=
      fun u hu => Finset.mem_singleton.mp hu ▸ hnum
    exact (if_pos (Finset.card_singleton v)).trans (if_pos hall)

/-- A key, an operator and one value. -/
theorem parseRequirement_exact {k v : List Char} {op : SelectionOp} (hk : IsWord k)
    (hvalid : validateLabelKey k = .ok ()) (hv : IsValue v)
    (hop : (op = .equals ∨ op = .doubleEquals ∨ op = .notEquals) ∨
      (op = .greaterThan ∨ op = .lessThan) ∧ (parseU64 v).isSome = true)
    {next : ScannedItem} (hnext : next.EndsReq) (rest : List ScannedItem) :
    parseRequirement (wordItem k :: (op.item ++ valueItem v) ++ next :: rest)
      = .ok (⟨k, op, {v}⟩, next :: rest) := by
  have hnew : Requirement.new k op {v} = .ok ⟨k, op, {v}⟩ := by
    refine Requirement.new_valid hvalid op {v} (.inr (.inr (.inr ?_)))
    exact hop.imp (fun h => ⟨h, Finset.card_singleton v⟩) fun h => ⟨h.1, v, rfl, h.2⟩
  have hin : ¬ (op = .isIn ∨ op = .notIn) := by
    rcases hop with (rfl | rfl | rfl) | ⟨rfl | rfl, -⟩ <;> decide
  obtain ⟨i, hi, hends, hoperator⟩ : ∃ i, op.item = [i] ∧ ¬ i.EndsReq ∧
      ∀ items, parseOperator (i :: items) = .ok (op, items) := by
    rcases hop with (rfl | rfl | rfl) | ⟨rfl | rfl, -⟩ <;>
      exact ⟨_, rfl, by decide, fun _ => rfl⟩
  rw [hi, List.cons_append, List.append_assoc, List.singleton_append]
  unfold parseRequirement
  rw [show wordItem k = ⟨wordToken k, k⟩ from rfl, parseKey_word hk hvalid, if_neg hends,
    Except.ok_bind]
  simp only [reduceCtorEq, or_self, if_false, hoperator, Except.ok_bind, hin]
  rw [parseExactValue_item hv hnext, Except.ok_bind, hnew]
  rfl

/-- A key, an operator and a set. -/
theorem parseRequirement_set {k : List Char} {vs : List (List Char)} {op : SelectionOp}
    (hk : IsWord k) (hvalid : validateLabelKey k = .ok ()) (hop : op = .isIn ∨ op = .notIn)
    (hvs : ∀ v ∈ vs, IsValue v) (hne : vs ≠ []) (hlast : vs.getLast? ≠ some [])
    (rest : List ScannedItem) :
    parseRequirement (wordItem k :: (op.item ++ openItem :: (valueItems vs ++ [closeItem])) ++ rest)
      = .ok (⟨k, op, vs.toFinset⟩, rest) := by
  have hnew : Requirement.new k op vs.toFinset = .ok ⟨k, op, vs.toFinset⟩ := by
    refine Requirement.new_valid hvalid op _ (.inr (.inr (.inl ⟨hop, ?_⟩)))
    exact mt (List.toFinset_eq_empty_iff vs).mp hne
  obtain ⟨i, hi, hends, hoperator⟩ : ∃ i, op.item = [i] ∧ ¬ i.EndsReq ∧
      ∀ items, parseOperator (i :: items) = .ok (op, items) := by
    rcases hop with rfl | rfl <;> exact ⟨_, rfl, by decide, fun _ => rfl⟩
  rw [hi, List.cons_append, List.append_assoc, List.singleton_append, List.cons_append,
    List.append_assoc, List.singleton_append]
  unfold parseRequirement
  rw [show wordItem k = ⟨wordToken k, k⟩ from rfl, parseKey_word hk hvalid, if_neg hends,
    Except.ok_bind]
  simp only [reduceCtorEq, or_self, if_false, hoperator, Except.ok_bind, hop, if_true]
  rw [parseValues_list hvs hne hlast, Except.ok_bind, hnew]
  rfl

/-- A requirement without an operator. -/
theorem parseRequirement_not {k : List Char} (hk : IsWord k) (hvalid : validateLabelKey k = .ok ())
    (i : ScannedItem) (rest : List ScannedItem) :
    parseRequirement (notItem :: wordItem k :: i :: rest)
      = .ok (⟨k, .doesNotExist, ∅⟩, i :: rest) := by
  unfold parseRequirement
  rw [show parseKeyAndInferOperator (notItem :: wordItem k :: i :: rest) = _ from
    parseKey_not hk hvalid ['!'] i rest]
  show (Requirement.new k .doesNotExist ∅ >>= _) = _
  rw [Requirement.new_valid hvalid .doesNotExist ∅ (.inr (.inl ⟨rfl, rfl⟩))]
  rfl

/-- **The parser reads the requirements of its dialect.** -/
theorem parseRequirement_complete {items : List ScannedItem} {r : Requirement}
    (h : accepted.Req items r) {next : ScannedItem} (hnext : next.EndsReq)
    (rest : List ScannedItem) :
    parseRequirement (items ++ next :: rest) = .ok (r, next :: rest) := by
  cases h with
  | @exist k hk hvalid =>
    unfold parseRequirement
    rw [List.singleton_append, show wordItem k = ⟨wordToken k, k⟩ from rfl, parseKey_word hk hvalid,
      if_pos hnext]
    show (Requirement.new k .exist ∅ >>= _) = _
    rw [Requirement.new_valid hvalid .exist ∅ (.inl ⟨rfl, rfl⟩)]
    rfl
  | notExist hk hvalid => exact parseRequirement_not hk hvalid next rest
  | exact hk hvalid hop hv _ => exact parseRequirement_exact hk hvalid hv (.inl hop) hnext rest
  | compare _ hk hvalid hop hv hnum =>
    exact parseRequirement_exact hk hvalid hv (.inr ⟨hop, hnum⟩) hnext rest
  | set hk hvalid hop hvs hne _ hlast =>
    exact parseRequirement_set hk hvalid hop (fun v hv => (hvs v hv).1) hne
      (hlast.resolve_left id) _
  | negated hg => exact absurd hg id

theorem Dialect.Req.head {g : Dialect} {items : List ScannedItem} {r : Requirement}
    (h : g.Req items r) : ∃ i rest, items = i :: rest ∧
      (i.inContext .values = .identifier ∨ i.inContext .values = .doesNotExist) := by
  cases h with
  | exist hk => exact ⟨_, _, rfl, .inl (word_context hk)⟩
  | notExist => exact ⟨_, _, rfl, .inr rfl⟩
  | exact hk => exact ⟨_, _, rfl, .inl (word_context hk)⟩
  | compare _ hk => exact ⟨_, _, rfl, .inl (word_context hk)⟩
  | set hk => exact ⟨_, _, rfl, .inl (word_context hk)⟩
  | negated => exact ⟨_, _, rfl, .inr rfl⟩

theorem Dialect.Reqs.head {g : Dialect} {items : List ScannedItem} {reqs : List Requirement}
    (h : g.Reqs items reqs) : ∃ i rest, items = i :: rest ∧
      (i.inContext .values = .identifier ∨ i.inContext .values = .doesNotExist) := by
  cases h with
  | one h => exact h.head
  | cons h _ =>
    obtain ⟨i, rest, hitems, hi⟩ := h.head
    exact ⟨i, _, by rw [hitems]; rfl, hi⟩

/-- The last requirement. -/
theorem parseLoop_last {items rest : List ScannedItem} {i : ScannedItem} {r : Requirement} (fuel : ℕ)
    (hi : i.inContext .values = .identifier ∨ i.inContext .values = .doesNotExist)
    (h : parseRequirement (i :: items) = .ok (r, endItem :: rest)) :
    parseLoop (fuel + 1) (i :: items) = .ok [r] := by
  rw [parseLoop]
  simp only [lookahead, Except.ok_bind]
  rcases hi with hi | hi
  · rw [hi, h]
    rfl
  · rw [hi, h]
    rfl

/-- A requirement before a comma and another one. -/
theorem parseLoop_next {items rest : List ScannedItem} {i j : ScannedItem} {r : Requirement}
    {reqs : List Requirement} {fuel : ℕ}
    (hi : i.inContext .values = .identifier ∨ i.inContext .values = .doesNotExist)
    (hj : j.inContext .values = .identifier ∨ j.inContext .values = .doesNotExist)
    (h : parseRequirement (i :: items) = .ok (r, commaItem :: j :: rest))
    (hrest : parseLoop fuel (j :: rest) = .ok reqs) :
    parseLoop (fuel + 1) (i :: items) = .ok (r :: reqs) := by
  have hif : ¬ (j.inContext .values ≠ .identifier ∧ j.inContext .values ≠ .doesNotExist) := by
    rintro ⟨h₁, h₂⟩
    exact hj.elim h₁ h₂
  rw [parseLoop]
  simp only [lookahead, Except.ok_bind]
  rcases hi with hi | hi
  · rw [hi, h]
    show (if _ then _ else Except.bind (parseLoop fuel _) _) = _
    rw [if_neg hif, hrest]
    rfl
  · rw [hi, h]
    show (if _ then _ else Except.bind (parseLoop fuel _) _) = _
    rw [if_neg hif, hrest]
    rfl

theorem parseLoop_complete {items : List ScannedItem} {reqs : List Requirement}
    (h : accepted.Reqs items reqs) {fuel : ℕ} (hfuel : items.length < fuel) :
    parseLoop fuel (items ++ [endItem]) = .ok reqs := by
  induction h generalizing fuel with
  | one h =>
    obtain ⟨fuel, rfl⟩ : ∃ k, fuel = k + 1 := ⟨fuel - 1, by omega⟩
    have hparse := parseRequirement_complete h (.inr rfl : endItem.EndsReq) []
    obtain ⟨i, rest, hitems, hi⟩ := h.head
    rw [hitems] at hparse ⊢
    exact parseLoop_last fuel hi hparse
  | @cons items r rest rs h hrest ih =>
    obtain ⟨fuel, rfl⟩ : ∃ k, fuel = k + 1 := ⟨fuel - 1, by omega⟩
    have ih' := @ih fuel (by rw [List.length_append, List.length_cons] at hfuel; omega)
    obtain ⟨i, items', hitems, hi⟩ := h.head
    obtain ⟨j, rest', hrest', hj⟩ := hrest.head
    have hparse := parseRequirement_complete h (.inl rfl : commaItem.EndsReq) (rest ++ [endItem])
    rw [List.append_assoc, List.cons_append]
    rw [hrest'] at ih' hparse ⊢
    rw [hitems] at hparse ⊢
    exact parseLoop_next hi hj hparse ih'

/-- **The parser reads its dialect.** -/
theorem parse_complete {s : List Char} {reqs : List Requirement} (h : accepted.Found s reqs) :
    parse s = .ok (sortByKey reqs) := by
  obtain ⟨items, hscan, h | ⟨-, rfl, rfl⟩⟩ := h
  · unfold parse
    rw [hscan]
    dsimp only
    rw [parseLoop_complete h (by rw [List.length_append, List.length_singleton]; omega)]
    rfl
  · unfold parse
    rw [hscan]
    rfl

end Inferx.Selector
