import Mathlib.Tactic.Common

/-!
# The lexer of selectors

A selector is read one character at a time. Brackets, commas and the operators that
are not words are cut off as long as they stay an operator; everything else up to the
next such character or blank is one word. `Read` returns NUL at the end of the text,
and a NUL in the text is taken for that end: between words it ends the selector, at the
end of a word or an operator it disappears.
-/

namespace Inferx.Selector

/-- What the lexer returns. -/
inductive Token where
  | error | endOfString | closedPar | comma | doesNotExist | doubleEquals | equals | greaterThan
  | identifier | isIn | lessThan | notEquals | notIn | openPar
  deriving DecidableEq, Repr

/-- A token and its text. -/
structure ScannedItem where
  tok : Token
  literal : List Char
  deriving DecidableEq, Repr

/-- `STRING2TOKEN`. -/
def string2Token : List Char → Option Token
  | [')'] => some .closedPar
  | [','] => some .comma
  | ['!'] => some .doesNotExist
  | ['=', '='] => some .doubleEquals
  | ['='] => some .equals
  | ['>'] => some .greaterThan
  | ['i', 'n'] => some .isIn
  | ['<'] => some .lessThan
  | ['!', '='] => some .notEquals
  | ['n', 'o', 't', 'i', 'n'] => some .notIn
  | ['('] => some .openPar
  | _ => none

def isWhitespace (ch : Char) : Bool := ch == ' ' || ch == '\t' || ch == '\r' || ch == '\n'

def isSpecialSymbol (ch : Char) : Bool :=
  ch == '=' || ch == '!' || ch == '(' || ch == ')' || ch == ',' || ch == '>' || ch == '<'

/-- The loop of `ScanIDOrKeyword`: the word, and what is left. -/
def scanWord : List Char → List Char × List Char
  | [] => ([], [])
  | ch :: s =>
    if ch = '\x00' then ([], s)
    else if isSpecialSymbol ch || isWhitespace ch then ([], ch :: s)
    else (ch :: (scanWord s).1, (scanWord s).2)

/-- The token of a word. -/
def wordToken (buf : List Char) : Token := (string2Token buf).getD .identifier

/-- The loop of `ScanSpecialSymbol`, after `buf`, whose longest operator so far is `last`. -/
def scanSymbol (buf : List Char) (last : Option ScannedItem) :
    List Char → ScannedItem × List Char
  | [] => (last.getD (noSymbol buf), [])
  | ch :: s =>
    if ch = '\x00' then (last.getD (noSymbol buf), s)
    else if isSpecialSymbol ch then
      match string2Token (buf ++ [ch]) with
      | some tok => scanSymbol (buf ++ [ch]) (some ⟨tok, buf ++ [ch]⟩) s
      | none =>
        match last with
        | some item => (item, ch :: s)
        | none => scanSymbol (buf ++ [ch]) none s
    else (last.getD (noSymbol buf), ch :: s)
where
  /-- no prefix of the characters is an operator -/
  noSymbol (buf : List Char) : ScannedItem :=
    ⟨.error, ("error expected: keyword found '" ++ String.ofList buf ++ "'").toList⟩

/-- `Lex`: the next token, and what is left. -/
def lex (s : List Char) : ScannedItem × List Char :=
  match s.dropWhile isWhitespace with
  | [] => (⟨.endOfString, []⟩, [])
  | ch :: rest =>
    if ch = '\x00' then (⟨.endOfString, []⟩, rest)
    else if isSpecialSymbol ch then scanSymbol [] none (ch :: rest)
    else
      (⟨wordToken (scanWord (ch :: rest)).1, (scanWord (ch :: rest)).1⟩, (scanWord (ch :: rest)).2)

/-- `Scan`, for at most `fuel` tokens. -/
def scanItems : ℕ → List Char → List ScannedItem
  | 0, _ => []
  | fuel + 1, s =>
    if (lex s).1.tok = .endOfString then [(lex s).1]
    else (lex s).1 :: scanItems fuel (lex s).2

/-- `Scan`. -/
def scan (s : List Char) : List ScannedItem := scanItems (s.length + 1) s

/-! ## Taking a text apart -/

/-- A character of words. -/
def isWordChar (c : Char) : Bool := !(c == '\x00') && !isSpecialSymbol c && !isWhitespace c

/-- A word that the lexer reads as one token. -/
structure IsWord (w : List Char) : Prop where
  ne_nil : w ≠ []
  chars : ∀ c ∈ w, isWordChar c = true

/-- A word ends before such a text. -/
def Breaks (tail : List Char) : Prop :=
  ∀ c rest, tail = c :: rest → c ≠ '\x00' ∧ (isSpecialSymbol c || isWhitespace c) = true

/-- An operator is not longer before such a text. -/
def StopsAt (sym tail : List Char) : Prop :=
  ∀ c rest, tail = c :: rest →
    c ≠ '\x00' ∧ (isSpecialSymbol c = true → string2Token (sym ++ [c]) = none)

theorem isWordChar_iff {c : Char} : isWordChar c = true ↔
    c ≠ '\x00' ∧ isSpecialSymbol c = false ∧ isWhitespace c = false := by
  simp [isWordChar, and_assoc]

theorem special_facts {c : Char} (h : isSpecialSymbol c = true) :
    c ≠ '\x00' ∧ isWhitespace c = false := by
  unfold isSpecialSymbol at h
  simp only [Bool.or_eq_true, beq_iff_eq] at h
  rcases h with (((((rfl | rfl) | rfl) | rfl) | rfl) | rfl) | rfl <;> decide

/-- The text of an operator. -/
def tokenText : Token → List Char
  | .closedPar => [')']
  | .comma => [',']
  | .doesNotExist => ['!']
  | .doubleEquals => ['=', '=']
  | .equals => ['=']
  | .greaterThan => ['>']
  | .isIn => ['i', 'n']
  | .lessThan => ['<']
  | .notEquals => ['!', '=']
  | .notIn => ['n', 'o', 't', 'i', 'n']
  | .openPar => ['(']
  | .error | .endOfString | .identifier => []

theorem string2Token_text {s : List Char} {t : Token} (h : string2Token s = some t) :
    s = tokenText t := by
  unfold string2Token at h
  split at h <;> cases h <;> rfl

theorem string2Token_ne {s : List Char} {t : Token} (h : string2Token s = some t) :
    t ≠ .endOfString ∧ t ≠ .error := by
  rw [string2Token_text h] at h
  constructor <;> (rintro rfl; cases h)

/-- Only two words are operators. -/
theorem string2Token_word {w : List Char} {t : Token} (hw : IsWord w) (h : string2Token w = some t) :
    t = .isIn ∨ t = .notIn := by
  obtain rfl := string2Token_text h
  have hchars := hw.chars
  cases t with
  | isIn => exact .inl rfl
  | notIn => exact .inr rfl
  | error => cases h
  | endOfString => cases h
  | identifier => cases h
  | _ => exact absurd (hchars _ List.mem_cons_self) (by decide)

theorem scanWord_append {w tail : List Char} (hw : ∀ c ∈ w, isWordChar c = true) (ht : Breaks tail) :
    scanWord (w ++ tail) = (w, tail) := by
  induction w with
  | nil =>
    cases tail with
    | nil => rfl
    | cons c rest =>
      obtain ⟨hnul, hbreak⟩ := ht c rest rfl
      rw [List.nil_append, scanWord, if_neg hnul, if_pos hbreak]
  | cons c w ih =>
    obtain ⟨hnul, hspecial, hblank⟩ := isWordChar_iff.mp (hw c List.mem_cons_self)
    have ih' := ih fun d hd => hw d (List.mem_cons_of_mem c hd)
    rw [List.cons_append, scanWord, if_neg hnul, if_neg (by simp [hspecial, hblank]), ih']

theorem scanWord_length (s : List Char) : (scanWord s).2.length ≤ s.length := by
  induction s with
  | nil => exact Nat.le_refl _
  | cons c s ih =>
    unfold scanWord
    split
    · exact Nat.le_succ _
    · split
      · exact Nat.le_refl _
      · exact Nat.le_succ_of_le ih

theorem scanSymbol_length (buf : List Char) (last : Option ScannedItem) (s : List Char) :
    (scanSymbol buf last s).2.length ≤ s.length := by
  induction s generalizing buf last with
  | nil => exact Nat.le_refl _
  | cons c s ih =>
    unfold scanSymbol
    split
    · exact Nat.le_succ _
    · split
      · split
        · exact Nat.le_succ_of_le (ih _ _)
        · split
          · exact Nat.le_refl _
          · exact Nat.le_succ_of_le (ih _ _)
      · exact Nat.le_refl _

theorem scanSymbol_stops {buf tail : List Char} (item : ScannedItem) (ht : StopsAt buf tail) :
    scanSymbol buf (some item) tail = (item, tail) := by
  cases tail with
  | nil => rfl
  | cons c rest =>
    obtain ⟨hnul, hnone⟩ := ht c rest rfl
    unfold scanSymbol
    rw [if_neg hnul]
    split
    next hspecial => rw [hnone hspecial]
    next => rfl

/-- Every token but the last takes something from the text. -/
theorem lex_length {s : List Char} (h : (lex s).1.tok ≠ .endOfString) :
    (lex s).2.length < s.length := by
  have hblank : (s.dropWhile isWhitespace).length ≤ s.length := (List.dropWhile_suffix _).length_le
  unfold lex at h ⊢
  rcases hs : s.dropWhile isWhitespace with _ | ⟨c, rest⟩
  · rw [hs] at h
    exact absurd rfl h
  · rw [hs, List.length_cons] at hblank
    rw [hs] at h
    dsimp only at h ⊢
    split at h
    next => exact absurd rfl h
    next hnul =>
      rw [if_neg hnul]
      split
      next hspecial =>
        refine Nat.lt_of_le_of_lt ?_ hblank
        unfold scanSymbol
        rw [if_neg hnul, if_pos hspecial]
        split
        · exact scanSymbol_length _ _ _
        · exact scanSymbol_length _ _ _
      next hspecial =>
        have hne : isWhitespace c = false := by
          have := List.head?_dropWhile_not isWhitespace s
          rw [hs] at this
          simpa using this
        refine Nat.lt_of_le_of_lt ?_ hblank
        unfold scanWord
        rw [if_neg hnul, if_neg (by simp [hspecial, hne])]
        exact scanWord_length rest

theorem scanItems_fuel {n m : ℕ} {s : List Char} (hn : s.length < n) (hm : s.length < m) :
    scanItems n s = scanItems m s := by
  induction n generalizing m s with
  | zero => exact absurd hn (Nat.not_lt_zero _)
  | succ n ih =>
    obtain ⟨m, rfl⟩ : ∃ k, m = k + 1 := ⟨m - 1, by omega⟩
    unfold scanItems
    split
    next => rfl
    next h =>
      have hlt := lex_length h
      rw [ih (m := m) (by omega) (by omega)]

/-- The tokens of a text, one by one. -/
theorem scan_eq (s : List Char) : scan s =
    if (lex s).1.tok = .endOfString then [(lex s).1] else (lex s).1 :: scan (lex s).2 := by
  unfold scan
  rw [scanItems]
  split
  next => rfl
  next h =>
    have hlt := lex_length h
    rw [scanItems_fuel (by omega) (Nat.lt_succ_self _)]

theorem scan_cons {s rest : List Char} {item : ScannedItem} (h : lex s = (item, rest))
    (hitem : item.tok ≠ .endOfString) : scan s = item :: scan rest := by
  rw [scan_eq, h]
  exact if_neg hitem

@[simp] theorem scan_nil : scan [] = [⟨.endOfString, []⟩] := rfl

theorem lex_blank {c : Char} (s : List Char) (hc : isWhitespace c = true) : lex (c :: s) = lex s := by
  unfold lex
  rw [List.dropWhile_cons_of_pos hc]

theorem scan_blank {c : Char} (s : List Char) (hc : isWhitespace c = true) :
    scan (c :: s) = scan s := by
  rw [scan_eq, scan_eq s, lex_blank s hc]

theorem wordToken_ne (w : List Char) : wordToken w ≠ .endOfString := by
  unfold wordToken
  rcases h : string2Token w with _ | t
  · decide
  · exact (string2Token_ne h).1

theorem scan_word {w tail : List Char} (hw : IsWord w) (ht : Breaks tail) :
    scan (w ++ tail) = ⟨wordToken w, w⟩ :: scan tail := by
  refine scan_cons ?_ (wordToken_ne w)
  rcases hcons : w with _ | ⟨c, w'⟩
  · exact absurd hcons hw.ne_nil
  · obtain ⟨hnul, hspecial, hblank⟩ := isWordChar_iff.mp (hw.chars c (hcons ▸ List.mem_cons_self))
    have hscan := scanWord_append hw.chars ht
    rw [hcons, List.cons_append] at hscan
    unfold lex
    rw [List.cons_append, List.dropWhile_cons_of_neg (by simp [hblank])]
    dsimp only
    rw [if_neg hnul, if_neg (by simp [hspecial]), hscan]

theorem lex_symbol {c : Char} (rest : List Char) (hc : isSpecialSymbol c = true) :
    lex (c :: rest) = scanSymbol [] none (c :: rest) := by
  obtain ⟨hnul, hblank⟩ := special_facts hc
  unfold lex
  rw [List.dropWhile_cons_of_neg (by simp [hblank])]
  dsimp only
  rw [if_neg hnul, if_pos hc]

theorem scan_symbol {c : Char} {t : Token} {tail : List Char} (ht : string2Token [c] = some t)
    (hc : isSpecialSymbol c = true) (hstop : StopsAt [c] tail) :
    scan (c :: tail) = ⟨t, [c]⟩ :: scan tail := by
  refine scan_cons ?_ (string2Token_ne ht).1
  rw [lex_symbol tail hc]
  unfold scanSymbol
  rw [if_neg (special_facts hc).1, if_pos hc, List.nil_append, ht]
  exact scanSymbol_stops _ hstop

theorem scan_symbol₂ {c d : Char} {t u : Token} {tail : List Char} (ht : string2Token [c] = some t)
    (hu : string2Token [c, d] = some u) (hc : isSpecialSymbol c = true)
    (hd : isSpecialSymbol d = true) (hstop : StopsAt [c, d] tail) :
    scan (c :: d :: tail) = ⟨u, [c, d]⟩ :: scan tail := by
  refine scan_cons ?_ (string2Token_ne hu).1
  rw [lex_symbol _ hc]
  unfold scanSymbol
  rw [if_neg (special_facts hc).1, if_pos hc, List.nil_append, ht]
  dsimp only
  unfold scanSymbol
  rw [if_neg (special_facts hd).1, if_pos hd, List.singleton_append, hu]
  exact scanSymbol_stops _ hstop

end Inferx.Selector
