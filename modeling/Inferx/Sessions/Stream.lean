import Inferx.Lib.Find
import Inferx.Lib.Strs
import Inferx.Gateway.Metering

/-!
# What a model streams

A model answers with a stream of lines, each with a piece of the content, pieces of the calls
of tools, or the usage. Thoughts are cut out of what is stored, between `<think>` and
`</think>`. The calls of tools come in pieces that name the call they belong to by its number.

`stripThink_eq_iff` says what is cut out, and `calls_ext` that the pieces of one call may come
between those of another.
-/

namespace Inferx.Sessions

open Find Lines Gateway

/-! ## Thoughts -/

/-- `<think>` -/
def thinkOpen : List Char := ['<', 't', 'h', 'i', 'n', 'k', '>']

/-- `</think>` -/
def thinkClose : List Char := ['<', '/', 't', 'h', 'i', 'n', 'k', '>']

theorem length_stripped {l a r b r' : List Char} (h : splitFirst thinkOpen l = some (a, r))
    (h' : splitFirst thinkClose (thinkOpen ++ r) = some (b, r')) : r'.length < l.length := by
  have hl := congrArg List.length (of_splitFirst (by decide) h).1
  have hr := congrArg List.length (of_splitFirst (by decide) h').1
  simp only [List.length_append, thinkOpen, thinkClose, List.length_cons, List.length_nil] at hl hr
  omega

/-- The loop of `strip_think_tags`. -/
def stripThink (l : List Char) : List Char :=
  match _h : splitFirst thinkOpen l with
  | none => l
  | some (a, r) =>
    match _h' : splitFirst thinkClose (thinkOpen ++ r) with
    | none => a
    | some (_, r') => a ++ stripThink r'
termination_by l.length
decreasing_by exact length_stripped _h _h'

/-- `strip_think_tags` -/
def stripThinkTags (s : String) : String := Strs.trimWhite (String.ofList (stripThink s.toList))

/-- A text with closed thoughts, each after a visible piece. -/
def written : List (List Char × List Char) → List Char → List Char
  | [], last => last
  | (v, t) :: pieces, last => v ++ thinkOpen ++ (t ++ thinkClose ++ written pieces last)

/-- The visible pieces have no thought, and the thoughts have no end. -/
def Pieces (pieces : List (List Char × List Char)) : Prop :=
  ∀ p ∈ pieces, ¬ thinkOpen <:+: p.1 ∧ ¬ thinkClose <:+: p.2

/-- The end of a thought is not at its beginning. -/
theorem not_close_open {t : List Char} (h : ¬ thinkClose <:+: t) : ¬ thinkClose <:+: thinkOpen ++ t := by
  simp only [thinkOpen, List.cons_append, List.nil_append, List.infix_cons_iff]
  simpa [thinkClose, List.cons_prefix_cons] using h

theorem splitFirst_open {v r : List Char} (h : ¬ thinkOpen <:+: v) :
    splitFirst thinkOpen (v ++ thinkOpen ++ r) = some (v, r) :=
  splitFirst_append (v := ['t', 'h', 'i', 'n', 'k', '>']) (by decide) h

theorem splitFirst_close {t r : List Char} (h : ¬ thinkClose <:+: t) :
    splitFirst thinkClose (thinkOpen ++ (t ++ thinkClose ++ r)) = some (thinkOpen ++ t, r) := by
  have hsplit := splitFirst_append (v := ['/', 't', 'h', 'i', 'n', 'k', '>']) (b := r) (by decide)
    (not_close_open h)
  rw [← hsplit]
  simp [thinkClose, thinkOpen]

theorem stripThink_closed {v t r : List Char} (hv : ¬ thinkOpen <:+: v) (ht : ¬ thinkClose <:+: t) :
    stripThink (v ++ thinkOpen ++ (t ++ thinkClose ++ r)) = v ++ stripThink r := by
  rw [stripThink]
  split
  next hnone =>
    rw [splitFirst_open hv] at hnone
    cases hnone
  next a r₁ hsome =>
    rw [splitFirst_open hv] at hsome
    obtain ⟨rfl, rfl⟩ := Prod.mk.inj (Option.some.inj hsome)
    split
    next hnone =>
      rw [splitFirst_close ht] at hnone
      cases hnone
    next hclose =>
      rw [splitFirst_close ht] at hclose
      obtain ⟨-, rfl⟩ := Prod.mk.inj (Option.some.inj hclose)
      rfl

theorem stripThink_visible {v : List Char} (hv : ¬ thinkOpen <:+: v) : stripThink v = v := by
  have hnone := (splitFirst_eq_none (by decide)).mpr hv
  rw [stripThink]
  split
  next => rfl
  next hsome =>
    rw [hnone] at hsome
    cases hsome

theorem stripThink_open {v t : List Char} (hv : ¬ thinkOpen <:+: v) (ht : ¬ thinkClose <:+: t) :
    stripThink (v ++ thinkOpen ++ t) = v := by
  have hclose := (splitFirst_eq_none (by decide)).mpr (not_close_open ht)
  rw [stripThink]
  split
  next hnone =>
    rw [splitFirst_open hv] at hnone
    cases hnone
  next a r hsome =>
    rw [splitFirst_open hv] at hsome
    obtain ⟨rfl, rfl⟩ := Prod.mk.inj (Option.some.inj hsome)
    split
    next => rfl
    next hclose' =>
      rw [hclose] at hclose'
      cases hclose'

theorem stripThink_written {pieces : List (List Char × List Char)} (h : Pieces pieces) (last : List Char) :
    stripThink (written pieces last) = pieces.flatMap Prod.fst ++ stripThink last := by
  induction pieces with
  | nil => rfl
  | cons p pieces ih =>
    obtain ⟨hp, hpieces⟩ := List.forall_mem_cons.mp h
    rw [written, stripThink_closed hp.1 hp.2, ih hpieces, List.flatMap_cons, List.append_assoc]

/-- Each text has its thoughts, and a thought without an end may be the last. -/
theorem exists_written (l : List Char) : ∃ pieces v, Pieces pieces ∧ ¬ thinkOpen <:+: v ∧
    (l = written pieces v ∨ ∃ t, ¬ thinkClose <:+: t ∧ l = written pieces (v ++ thinkOpen ++ t)) := by
  induction hn : l.length using Nat.strong_induction_on generalizing l with
  | h n ih =>
    subst hn
    rcases hopen : splitFirst thinkOpen l with _ | ⟨v, r⟩
    · exact ⟨[], l, fun _ h => absurd h List.not_mem_nil, (splitFirst_eq_none (by decide)).mp hopen, .inl rfl⟩
    · obtain ⟨hl, hv⟩ := of_splitFirst (by decide) hopen
      rcases hclose : splitFirst thinkClose r with _ | ⟨t, r'⟩
      · exact ⟨[], v, fun _ h => absurd h List.not_mem_nil, hv,
          .inr ⟨r, (splitFirst_eq_none (by decide)).mp hclose, hl⟩⟩
      · obtain ⟨hr, ht⟩ := of_splitFirst (by decide) hclose
        have hlt : r'.length < l.length := by
          rw [hl, hr]
          simp only [List.length_append, thinkOpen, thinkClose, List.length_cons, List.length_nil]
          omega
        obtain ⟨pieces, v', hpieces, hv', hwritten⟩ := ih _ hlt r' rfl
        refine ⟨(v, t) :: pieces, v', ?_, hv', ?_⟩
        · exact List.forall_mem_cons.mpr ⟨⟨hv, ht⟩, hpieces⟩
        · rcases hwritten with rfl | ⟨t', ht', rfl⟩
          · exact .inl (by rw [hl, hr]; rfl)
          · exact .inr ⟨t', ht', by rw [hl, hr]; rfl⟩

/-- **What is cut out**: the thoughts, and what is after a thought without an end. -/
theorem stripThink_eq_iff (l out : List Char) : stripThink l = out ↔
    ∃ pieces v, Pieces pieces ∧ ¬ thinkOpen <:+: v ∧ out = pieces.flatMap Prod.fst ++ v ∧
      (l = written pieces v ∨ ∃ t, ¬ thinkClose <:+: t ∧ l = written pieces (v ++ thinkOpen ++ t)) := by
  have hstrip : ∀ {pieces v}, Pieces pieces → ¬ thinkOpen <:+: v →
      (l = written pieces v ∨ ∃ t, ¬ thinkClose <:+: t ∧ l = written pieces (v ++ thinkOpen ++ t)) →
      stripThink l = pieces.flatMap Prod.fst ++ v := by
    rintro pieces v hpieces hv (rfl | ⟨t, ht, rfl⟩)
    · rw [stripThink_written hpieces, stripThink_visible hv]
    · rw [stripThink_written hpieces, stripThink_open hv ht]
  constructor
  · rintro rfl
    obtain ⟨pieces, v, hpieces, hv, hl⟩ := exists_written l
    exact ⟨pieces, v, hpieces, hv, hstrip hpieces hv hl, hl⟩
  · rintro ⟨pieces, v, hpieces, hv, rfl, hl⟩
    exact hstrip hpieces hv hl

/-! ## The calls of tools -/

/-- `ToolCall` -/
structure ToolCall where
  id : String
  type : String
  name : String
  arguments : String
  deriving DecidableEq

/-- What a slot of `tool_calls` is filled with. -/
def ToolCall.blank : ToolCall := { id := "", type := "function", name := "", arguments := "" }

/-- A piece of a call. -/
structure ToolCallDelta where
  index : ℕ
  id : String
  type : String
  name : Option String
  arguments : Option String

/-- A piece of a call, read from an entry of `tool_calls`. -/
def ToolCallDelta.ofObject (o : Object) : ToolCallDelta :=
  let function := (o.get "function").bind Value.asObject
  { index := (((o.get "index").bind Value.asU64).getD 0).toNat
    id := ((o.get "id").bind Value.asStr).getD ""
    type := ((o.get "type").bind Value.asStr).getD "function"
    name := function.bind fun f => (f.get "name").bind Value.asStr
    arguments := function.bind fun f => (f.get "arguments").bind Value.asStr }

/-- The id, the type and the name are taken once, the arguments grow. -/
def ToolCall.add (c : ToolCall) (d : ToolCallDelta) : ToolCall :=
  let c := if d.id ≠ "" ∧ c.id = "" then { c with id := d.id, type := d.type } else c
  let c := match d.name with
    | some name => if c.name = "" then { c with name } else c
    | none => c
  match d.arguments with
  | some arguments => { c with arguments := c.arguments ++ arguments }
  | none => c

/-- A piece goes to its slot, which is made if it is not there. -/
def addDelta (calls : List ToolCall) (d : ToolCallDelta) : List ToolCall :=
  (calls ++ List.replicate (d.index + 1 - calls.length) ToolCall.blank).modify d.index fun c => c.add d

section Calls

variable {calls : List ToolCall} {d : ToolCallDelta} {ds ds' : List ToolCallDelta} {i : ℕ}

theorem length_addDelta : (addDelta calls d).length = max calls.length (d.index + 1) := by
  simp [addDelta]
  omega

theorem getD_addDelta : (addDelta calls d).getD i .blank =
    if d.index = i then (calls.getD i .blank).add d else calls.getD i .blank := by
  simp only [addDelta, List.getD_eq_getElem?_getD, List.getElem?_modify, List.getElem?_append,
    List.getElem?_replicate]
  by_cases hi : i < calls.length
  · simp only [hi, if_true, List.getElem?_eq_getElem]
    split <;> rfl
  · simp only [hi, if_false, List.getElem?_eq_none (Nat.le_of_not_lt hi)]
    by_cases hd : d.index = i
    · subst hd
      have hlt : d.index - calls.length < d.index + 1 - calls.length := by omega
      simp [hlt]
    · simp only [hd, if_false]
      split <;> rfl

/-- Which slots there are. -/
theorem lt_length_calls : i < (ds.foldl addDelta calls).length ↔
    i < calls.length ∨ ∃ d ∈ ds, i ≤ d.index := by
  induction ds generalizing calls with
  | nil => simp
  | cons d ds ih =>
    have hcons : (∃ d' ∈ d :: ds, i ≤ d'.index) ↔ i ≤ d.index ∨ ∃ d' ∈ ds, i ≤ d'.index := by simp
    rw [List.foldl_cons, ih, length_addDelta, hcons, ← or_assoc]
    refine or_congr_left ?_
    omega

/-- A call is made of its own pieces, in their order. -/
theorem getD_calls : (ds.foldl addDelta calls).getD i .blank =
    (ds.filter fun d => d.index = i).foldl ToolCall.add (calls.getD i .blank) := by
  induction ds generalizing calls with
  | nil => rfl
  | cons d ds ih =>
    rw [List.foldl_cons, ih, getD_addDelta]
    by_cases hd : d.index = i
    · rw [if_pos hd, List.filter_cons_of_pos (by simpa using hd), List.foldl_cons]
    · rw [if_neg hd, List.filter_cons_of_neg (by simpa using hd)]

/-- **The pieces of one call may come between those of another.** -/
theorem calls_ext (h : ∀ i, (ds.filter fun d => d.index = i) = ds'.filter fun d => d.index = i) :
    ds.foldl addDelta [] = ds'.foldl addDelta [] := by
  have hmem : ∀ d, d ∈ ds ↔ d ∈ ds' := by
    intro d
    have hd := congrArg (d ∈ ·) (h d.index)
    simpa using hd
  have hlen : (ds.foldl addDelta []).length = (ds'.foldl addDelta []).length := by
    have hlt : ∀ i, i < (ds.foldl addDelta []).length ↔ i < (ds'.foldl addDelta []).length := by
      intro i
      simp only [lt_length_calls, hmem]
    exact Nat.le_antisymm (Nat.le_of_not_lt fun h => (Nat.lt_irrefl _ ((hlt _).mp h)).elim)
      (Nat.le_of_not_lt fun h => (Nat.lt_irrefl _ ((hlt _).mpr h)).elim)
  refine List.ext_getElem hlen fun i hi hi' => ?_
  have hget := @getD_calls [] ds i
  rw [h i, ← getD_calls] at hget
  simpa [List.getD_eq_getElem?_getD, hi, hi'] using hget

/-- A piece of arguments. -/
def Sample.piece (index : ℕ) (arguments : String) : ToolCallDelta :=
  { index, id := "", type := "function", name := none, arguments := some arguments }

theorem calls_ext_sample :
    [Sample.piece 0 "x", Sample.piece 1 "y", Sample.piece 0 "z"].foldl addDelta [] =
      [Sample.piece 1 "y", Sample.piece 0 "x", Sample.piece 0 "z"].foldl addDelta [] :=
  calls_ext fun i => by rcases i with _ | _ | i <;> simp [Sample.piece]

end Calls

end Inferx.Sessions
