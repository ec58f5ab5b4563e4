import Inferx.Selector.Exact

/-!
# The parser and its documentation

The parser reads what it is written for: the documented requirements, with `>` and `<`
besides, with any word for a value, and with a `!` only before a key that stands alone.
An empty value at the end of a set is meant to be read as well, but the closing bracket
is compared with the wrong token.
-/

namespace Inferx.Selector

/-- What the parser is written to read. -/
def intended : Dialect := { accepted with trailing := True }

/-- The text is read as documented. -/
def ReadAsDocumented (s : List Char) : Prop :=
  parse s ≠ .error .panic ∧
    ∀ sel, parse s = .ok sel ↔ ∃ reqs, documented.Sentence s reqs ∧ sel = sortByKey reqs

theorem accepted_intended {items : List ScannedItem} {r : Requirement} (h : accepted.Req items r) :
    intended.Req items r := by
  refine h.mono (fun _ hv => ?_) False.elim (fun hc => ?_) False.elim
  · exact hv
  · exact hc

theorem Dialect.Whole.mono {g g' : Dialect} (hreq : ∀ items r, g.Req items r → g'.Req items r)
    (hempty : g.empty → g'.empty) {items : List ScannedItem} {reqs : List Requirement}
    (h : g.Whole items reqs) : g'.Whole items reqs :=
  h.imp (fun h => h.mono hreq) fun h => ⟨hempty h.1, h.2⟩

/-- The documented requirements, with a `!` only before a key alone. -/
def documentedKeys : Dialect := { documented with negated := False }

theorem documented_intended {s : List Char} {reqs : List Requirement}
    (h : documentedKeys.Sentence s reqs) : intended.Sentence s reqs := by
  obtain ⟨items, hspells, hwhole⟩ := h
  refine ⟨items, hspells.mono fun _ => Delimiter.isWhitespace, hwhole.mono (fun _ _ hreq => ?_) ?_⟩
  · refine hreq.mono (fun _ _ => ?_) (fun _ => ?_) False.elim False.elim
    · exact True.intro
    · exact True.intro
  · exact False.elim

/-- What the parser reads is what is written in its dialect. -/
theorem parse_sentence {s : List Char} (hnul : '\x00' ∉ s) (sel : List Requirement) :
    parse s = .ok sel ↔ ∃ reqs, accepted.Sentence s reqs ∧ sel = sortByKey reqs := by
  refine ((parse_reads s).2 sel).trans (exists_congr fun reqs => and_congr_left' ?_)
  exact ⟨fun h => h.sentence (fun _ => id) hnul, fun h => h.found fun _ => id⟩

/-- **Parsing**: the parser never panics. Of the texts without a NUL it reads only what it is
written for, the documented requirements among it, and it reads all of that in which no set
ends with an empty value. -/
theorem parse_intended (s : List Char) : parse s ≠ .error .panic ∧ ('\x00' ∉ s →
    (∀ reqs, documentedKeys.Sentence s reqs → intended.Sentence s reqs) ∧
    (∀ sel, parse s = .ok sel → ∃ reqs, intended.Sentence s reqs ∧ sel = sortByKey reqs) ∧
    ∀ reqs, accepted.Sentence s reqs → parse s = .ok (sortByKey reqs)) := by
  refine ⟨(parse_reads s).1, fun hnul => ⟨fun _ => documented_intended, fun sel hsel => ?_,
    fun reqs hreqs => (parse_sentence hnul _).mpr ⟨reqs, hreqs, rfl⟩⟩⟩
  obtain ⟨reqs, ⟨items, hspells, hwhole⟩, hsort⟩ := (parse_sentence hnul sel).mp hsel
  exact ⟨reqs, ⟨items, hspells, hwhole.mono (fun _ _ => accepted_intended) id⟩, hsort⟩

theorem parse_intended_run :
    (∀ reqs, documentedKeys.Sentence ['x'] reqs → intended.Sentence ['x'] reqs) ∧
    (∀ sel, parse ['x'] = .ok sel → ∃ reqs, intended.Sentence ['x'] reqs ∧ sel = sortByKey reqs) ∧
    ∀ reqs, accepted.Sentence ['x'] reqs → parse ['x'] = .ok (sortByKey reqs) :=
  (parse_intended ['x']).2 (by decide)

/-- No documented requirements are a key, a `>` and a word. -/
theorem compare_not_reqs (reqs : List Requirement) :
    ¬ documented.Reqs [wordItem ['x'], ⟨.greaterThan, ['>']⟩, wordItem ['1']] reqs := by
  intro h
  generalize hitems : [wordItem ['x'], ⟨.greaterThan, ['>']⟩, wordItem ['1']] = items at h
  cases h with
  | one h =>
    cases h with
    | exist => cases congrArg List.length hitems
    | notExist => cases congrArg List.length hitems
    | exact _ _ hop => rcases hop with rfl | rfl | rfl <;> cases (List.cons.inj hitems).2
    | compare h => exact h
    | set _ _ hop => rcases hop with rfl | rfl <;> cases (List.cons.inj hitems).2
    | negated => exact absurd (List.cons.inj hitems).1 (by decide)
  | @cons first _ rest =>
    have hcomma : commaItem ∈ first ++ commaItem :: rest :=
      List.mem_append_right first List.mem_cons_self
    rw [← hitems] at hcomma
    rcases List.mem_cons.mp hcomma with h | hcomma
    · exact absurd h (by decide)
    · rcases List.mem_cons.mp hcomma with h | hcomma
      · exact absurd h (by decide)
      · exact absurd (List.mem_singleton.mp hcomma) (by decide)

/-- `x>1` is read, and not documented. -/
theorem compare_not_documented : ¬ ReadAsDocumented ['x', '>', '1'] := by
  rintro ⟨-, hread⟩
  have hscan : scan ['x', '>', '1']
      = [wordItem ['x'], ⟨.greaterThan, ['>']⟩, wordItem ['1']] ++ [endItem] := rfl
  have hvalid : validateLabelKey ['x'] = .ok () := by decide
  have hx : IsWord ['x'] := ⟨List.cons_ne_nil _ _, List.all_eq_true.mp rfl⟩
  have hone : IsWord ['1'] := ⟨List.cons_ne_nil _ _, List.all_eq_true.mp rfl⟩
  have hreq : accepted.Req [wordItem ['x'], ⟨.greaterThan, ['>']⟩, wordItem ['1']]
      ⟨['x'], .greaterThan, {['1']}⟩ :=
    .compare True.intro hx hvalid (.inl rfl) (.inr hone) (by decide)
  obtain ⟨reqs, ⟨items, hspells, hwhole⟩, -⟩ :=
    (hread _).mp (parse_complete ⟨_, hscan, .inl (.one hreq)⟩)
  have hitems := hspells.scan fun _ => Delimiter.isWhitespace
  rw [hscan] at hitems
  obtain rfl := List.append_cancel_right hitems
  rcases hwhole with h | ⟨h, -⟩
  · exact absurd h (compare_not_reqs reqs)
  · exact h

end Inferx.Selector
