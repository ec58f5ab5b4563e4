import Inferx.Lib.Proc
import Inferx.Selector.Parser

/-!
# Printing selectors

A printed selector reads back as itself. Keys and values are words, with the empty
value as no text at all; the printer puts a blank, a bracket, a comma or an operator
between any two of them, and no two operators next to each other that could be read as
one. In a value set the empty value comes first and is read from the comma behind it,
which is why a set of the empty value alone would not come back: no text gives one.
-/

namespace Inferx.Selector

/-- `join(",")`. -/
def joinComma : List (List Char) → List Char
  | [] => []
  | [v] => v
  | v :: vs => v ++ ',' :: joinComma vs

/-- What `String` puts between key and values. -/
def SelectionOp.text : SelectionOp → List Char
  | .equals => "=".toList
  | .doubleEquals => "==".toList
  | .isIn => " in ".toList
  | .notEquals => "!=".toList
  | .notIn => " notin ".toList
  | .greaterThan => ">".toList
  | .lessThan => "<".toList
  | .none | .exist | .doesNotExist => []

/-- `Requirement::String`. -/
def Requirement.string (r : Requirement) : List Char :=
  let output := (if r.op = .doesNotExist then ['!'] else []) ++ r.key
  if r.op = .doesNotExist ∨ r.op = .exist then output
  else if r.op = .isIn ∨ r.op = .notIn then
    output ++ r.op.text ++ '(' :: joinComma r.values ++ [')']
  else output ++ r.op.text ++ joinComma r.values

/-- `Selector::String`. -/
def selectorString (reqs : List Requirement) : List Char := joinComma (reqs.map Requirement.string)

/-! ## Requirements that are read -/

/-- A value: a word, or nothing. -/
def IsValue (v : List Char) : Prop := v = [] ∨ IsWord v

/-- What a text gives. -/
structure Requirement.Readable (r : Requirement) : Prop where
  key : IsWord r.key
  made : Requirement.new r.key r.op r.strVals = .ok r
  values : ∀ v ∈ r.strVals, IsValue v
  /-- a value set has more than the empty value -/
  some : r.op = .isIn ∨ r.op = .notIn → ∃ v ∈ r.strVals, v ≠ []

/-! ## Tokens of a printed selector -/

def commaItem : ScannedItem := ⟨.comma, [',']⟩

/-- The token of a word or value. -/
def valueItem (v : List Char) : List ScannedItem := if v = [] then [] else [⟨wordToken v, v⟩]

def valueItems : List (List Char) → List ScannedItem
  | [] => []
  | [v] => valueItem v
  | v :: vs => valueItem v ++ commaItem :: valueItems vs

/-- The token of an operator. -/
def SelectionOp.item : SelectionOp → List ScannedItem
  | .equals => [⟨.equals, ['=']⟩]
  | .doubleEquals => [⟨.doubleEquals, ['=', '=']⟩]
  | .isIn => [⟨.isIn, ['i', 'n']⟩]
  | .notEquals => [⟨.notEquals, ['!', '=']⟩]
  | .notIn => [⟨.notIn, ['n', 'o', 't', 'i', 'n']⟩]
  | .greaterThan => [⟨.greaterThan, ['>']⟩]
  | .lessThan => [⟨.lessThan, ['<']⟩]
  | .none | .exist | .doesNotExist => []

def Requirement.items (r : Requirement) : List ScannedItem :=
  let output := (if r.op = .doesNotExist then [⟨.doesNotExist, ['!']⟩] else []) ++ valueItem r.key
  if r.op = .doesNotExist ∨ r.op = .exist then output
  else if r.op = .isIn ∨ r.op = .notIn then
    output ++ r.op.item ++ ⟨.openPar, ['(']⟩ :: valueItems r.values ++ [⟨.closedPar, [')']⟩]
  else output ++ r.op.item ++ valueItems r.values

/-- What may follow a requirement: nothing, or a comma. -/
def EndsReq (tail : List Char) : Prop := tail = [] ∨ ∃ t, tail = ',' :: t

/-- What may follow a value: also a bracket. -/
def EndsValue (tail : List Char) : Prop := EndsReq tail ∨ ∃ t, tail = ')' :: t

theorem EndsValue.breaks {tail : List Char} (h : EndsValue tail) : Breaks tail := by
  rintro c rest rfl
  rcases h with (h | ⟨t, h⟩) | ⟨t, h⟩
  · cases h
  · obtain rfl := (List.cons.inj h).1
    decide
  · obtain rfl := (List.cons.inj h).1
    decide

theorem IsWord.head {w : List Char} (hw : IsWord w) (tail : List Char) :
    ∃ c rest, w ++ tail = c :: rest ∧ isWordChar c = true := by
  rcases hcons : w with _ | ⟨c, w'⟩
  · exact absurd hcons hw.ne_nil
  · exact ⟨c, w' ++ tail, rfl, hw.chars c (hcons ▸ List.mem_cons_self)⟩

/-- No operator is longer before a word. -/
theorem IsWord.stopsAt {w : List Char} (hw : IsWord w) (sym tail : List Char) :
    StopsAt sym (w ++ tail) := by
  intro c rest h
  obtain ⟨d, rest', hd, hchar⟩ := hw.head tail
  obtain rfl : d = c := (List.cons.inj (hd.symm.trans h)).1
  obtain ⟨hnul, hspecial, -⟩ := isWordChar_iff.mp hchar
  exact ⟨hnul, fun hs => by rw [hspecial] at hs; cases hs⟩

/-- No operator has a comma or a bracket behind its first character. -/
theorem EndsValue.stopsAt {sym tail : List Char} (h : EndsValue tail)
    (hcomma : string2Token (sym ++ [',']) = none) (hpar : string2Token (sym ++ [')']) = none) :
    StopsAt sym tail := by
  rintro c rest rfl
  rcases h with (h | ⟨t, h⟩) | ⟨t, h⟩
  · cases h
  · obtain rfl := (List.cons.inj h).1
    exact ⟨by decide, fun _ => hcomma⟩
  · obtain rfl := (List.cons.inj h).1
    exact ⟨by decide, fun _ => hpar⟩

theorem IsValue.stopsAt {v sym tail : List Char} (hv : IsValue v) (h : EndsValue tail)
    (hcomma : string2Token (sym ++ [',']) = none) (hpar : string2Token (sym ++ [')']) = none) :
    StopsAt sym (v ++ tail) := by
  rcases hv with rfl | hv
  · exact h.stopsAt hcomma hpar
  · exact hv.stopsAt sym tail

theorem scan_value {v tail : List Char} (hv : IsValue v) (ht : EndsValue tail) :
    scan (v ++ tail) = valueItem v ++ scan tail := by
  rcases hv with rfl | hv
  · rfl
  · rw [scan_word hv ht.breaks, valueItem, if_neg hv.ne_nil]
    rfl

theorem string2Token_comma (c : Char) : string2Token [',', c] = none := by
  rcases h : string2Token [',', c] with _ | t
  · rfl
  · have htext := string2Token_text h
    cases t <;> simp [tokenText] at htext

theorem joinComma_head {vs : List (List Char)} (hvs : ∀ v ∈ vs, IsValue v) {tail : List Char}
    (ht : EndsValue tail) {sym : List Char} (hcomma : string2Token (sym ++ [',']) = none)
    (hpar : string2Token (sym ++ [')']) = none) : StopsAt sym (joinComma vs ++ tail) := by
  rcases vs with _ | ⟨v, _ | ⟨w, vs⟩⟩
  · exact ht.stopsAt hcomma hpar
  · exact (hvs v List.mem_cons_self).stopsAt ht hcomma hpar
  · show StopsAt sym ((v ++ ',' :: joinComma (w :: vs)) ++ tail)
    rw [List.append_assoc]
    exact (hvs v List.mem_cons_self).stopsAt (.inl (.inr ⟨_, rfl⟩)) hcomma hpar

theorem scan_comma (tail : List Char) (ht : ∀ c rest, tail = c :: rest → c ≠ '\x00') :
    scan (',' :: tail) = commaItem :: scan tail :=
  scan_symbol rfl rfl fun c rest h => ⟨ht c rest h, fun _ => string2Token_comma c⟩

theorem scan_joinComma {vs : List (List Char)} (hvs : ∀ v ∈ vs, IsValue v) {tail : List Char}
    (ht : EndsValue tail) : scan (joinComma vs ++ tail) = valueItems vs ++ scan tail := by
  induction vs with
  | nil => rfl
  | cons v vs ih =>
    have ih' := ih fun w hw => hvs w (List.mem_cons_of_mem v hw)
    rcases vs with _ | ⟨w, vs⟩
    · exact scan_value (hvs v List.mem_cons_self) ht
    · have hstop : StopsAt [','] (joinComma (w :: vs) ++ tail) :=
        joinComma_head (fun u hu => hvs u (List.mem_cons_of_mem v hu)) ht (string2Token_comma ',')
          (string2Token_comma ')')
      show scan ((v ++ ',' :: joinComma (w :: vs)) ++ tail) = _
      rw [List.append_assoc, List.cons_append,
        scan_value (hvs v List.mem_cons_self) (.inl (.inr ⟨_, rfl⟩)), scan_comma _ (fun c rest h => (hstop c rest h).1), ih']
      show _ = (valueItem v ++ commaItem :: valueItems (w :: vs)) ++ scan tail
      rw [List.append_assoc]
      rfl

theorem scan_key {k tail : List Char} (hk : IsWord k) (ht : Breaks tail) :
    scan (k ++ tail) = valueItem k ++ scan tail := by
  rw [scan_word hk ht, valueItem, if_neg hk.ne_nil]
  rfl

theorem isWord_in : IsWord ['i', 'n'] := ⟨by decide, List.all_eq_true.mp rfl⟩

theorem isWord_notin : IsWord ['n', 'o', 't', 'i', 'n'] := ⟨by decide, List.all_eq_true.mp rfl⟩

theorem breaks_cons {c : Char} {tail : List Char} (hc : c ≠ '\x00')
    (hbreak : (isSpecialSymbol c || isWhitespace c) = true) : Breaks (c :: tail) := by
  intro d rest h
  obtain rfl := (List.cons.inj h).1
  exact ⟨hc, hbreak⟩

/-- A value set in brackets. -/
theorem scan_set {vs : List (List Char)} (hvs : ∀ v ∈ vs, IsValue v) {tail : List Char}
    (ht : EndsReq tail) : scan ('(' :: joinComma vs ++ [')'] ++ tail)
      = ⟨.openPar, ['(']⟩ :: valueItems vs ++ [⟨.closedPar, [')']⟩] ++ scan tail := by
  have hclose : EndsValue (')' :: tail) := .inr ⟨tail, rfl⟩
  have hopen : StopsAt ['('] (joinComma vs ++ ')' :: tail) := joinComma_head hvs hclose rfl rfl
  have hstop : StopsAt [')'] tail := EndsValue.stopsAt (.inl ht) rfl rfl
  rw [List.append_assoc, List.cons_append, List.singleton_append, scan_symbol rfl rfl hopen,
    scan_joinComma hvs hclose, scan_symbol rfl rfl hstop]
  simp

/-- **The tokens of a printed requirement.** -/
theorem scan_string {r : Requirement} (h : r.Readable) {tail : List Char} (ht : EndsReq tail) :
    scan (r.string ++ tail) = r.items ++ scan tail := by
  have hvs : ∀ v ∈ r.values, IsValue v := fun v hv => h.values v ((Finset.mem_sort _).mp hv)
  have hkey := h.key
  have hend : EndsValue tail := .inl ht
  have hset := scan_set hvs ht
  -- an operator of one character, and of two
  have hone : ∀ {c t}, string2Token [c] = some t → isSpecialSymbol c = true →
      string2Token [c, ','] = none → string2Token [c, ')'] = none →
      scan (r.key ++ [c] ++ joinComma r.values ++ tail)
        = valueItem r.key ++ [⟨t, [c]⟩] ++ valueItems r.values ++ scan tail := by
    intro c t htok hc hcomma hpar
    have hbreak : Breaks (c :: (joinComma r.values ++ tail)) :=
      breaks_cons (special_facts hc).1 (by rw [hc]; rfl)
    rw [List.append_assoc, List.append_assoc, List.singleton_append, scan_key hkey hbreak,
      scan_symbol htok hc (joinComma_head hvs hend hcomma hpar), scan_joinComma hvs hend]
    simp
  have htwo : ∀ {c t u}, string2Token [c] = some t → string2Token [c, '='] = some u →
      isSpecialSymbol c = true → string2Token [c, '=', ','] = none →
      string2Token [c, '=', ')'] = none →
      scan (r.key ++ [c, '='] ++ joinComma r.values ++ tail)
        = valueItem r.key ++ [⟨u, [c, '=']⟩] ++ valueItems r.values ++ scan tail := by
    intro c t u htok htok₂ hc hcomma hpar
    have hbreak : Breaks (c :: '=' :: (joinComma r.values ++ tail)) :=
      breaks_cons (special_facts hc).1 (by rw [hc]; rfl)
    rw [List.append_assoc, List.append_assoc, List.cons_append, List.singleton_append,
      scan_key hkey hbreak, scan_symbol₂ htok htok₂ hc rfl (joinComma_head hvs hend hcomma hpar),
      scan_joinComma hvs hend]
    simp
  have hword : ∀ {w}, IsWord w →
      scan (r.key ++ (' ' :: w ++ [' ']) ++ '(' :: joinComma r.values ++ [')'] ++ tail)
        = valueItem r.key ++ [⟨wordToken w, w⟩] ++ ⟨.openPar, ['(']⟩ :: valueItems r.values
          ++ [⟨.closedPar, [')']⟩] ++ scan tail := by
    intro w hw
    have hsplit : r.key ++ (' ' :: w ++ [' ']) ++ '(' :: joinComma r.values ++ [')'] ++ tail
        = r.key ++ ' ' :: (w ++ ' ' :: ('(' :: joinComma r.values ++ [')'] ++ tail)) := by simp
    rw [hsplit, scan_key hkey (breaks_cons (by decide) rfl), scan_blank _ rfl,
      scan_word hw (breaks_cons (by decide) rfl), scan_blank _ rfl, hset]
    simp
  unfold Requirement.string Requirement.items
  cases hop : r.op with
  | none =>
    have hmade := h.made
    rw [hop] at hmade
    unfold Requirement.new at hmade
    obtain ⟨_, -, hmade⟩ := Except.bind_eq_ok.mp hmade
    cases hmade
  | doesNotExist =>
    simp only [if_true, true_or, List.cons_append, List.nil_append]
    rw [scan_symbol (t := .doesNotExist) rfl rfl (hkey.stopsAt _ _), scan_key hkey hend.breaks]
  | exist =>
    simp only [reduceCtorEq, if_false, or_true, if_true, List.nil_append]
    exact scan_key hkey hend.breaks
  | equals =>
    simp only [reduceCtorEq, if_false, or_self, List.nil_append]
    exact hone rfl rfl rfl rfl
  | doubleEquals =>
    simp only [reduceCtorEq, if_false, or_self, List.nil_append]
    exact htwo rfl rfl rfl rfl rfl
  | notEquals =>
    simp only [reduceCtorEq, if_false, or_self, List.nil_append]
    exact htwo rfl rfl rfl rfl rfl
  | greaterThan =>
    simp only [reduceCtorEq, if_false, or_self, List.nil_append]
    exact hone rfl rfl rfl rfl
  | lessThan =>
    simp only [reduceCtorEq, if_false, or_self, List.nil_append]
    exact hone rfl rfl rfl rfl
  | isIn =>
    simp only [reduceCtorEq, if_false, or_self, true_or, if_true, List.nil_append]
    have htext : SelectionOp.isIn.text = ' ' :: ['i', 'n'] ++ [' '] := rfl
    have hitem : SelectionOp.isIn.item = [⟨wordToken ['i', 'n'], ['i', 'n']⟩] := rfl
    rw [htext, hitem]
    exact hword isWord_in
  | notIn =>
    simp only [reduceCtorEq, if_false, or_self, or_true, if_true, List.nil_append]
    have htext : SelectionOp.notIn.text = ' ' :: ['n', 'o', 't', 'i', 'n'] ++ [' '] := rfl
    have hitem : SelectionOp.notIn.item
        = [⟨wordToken ['n', 'o', 't', 'i', 'n'], ['n', 'o', 't', 'i', 'n']⟩] := rfl
    rw [htext, hitem]
    exact hword isWord_notin

end Inferx.Selector
