import Mathlib.Data.List.DropRight
import Mathlib.Data.String.Basic
import Mathlib.Order.Basic
import Inferx.Lib.Keys

/-!
# Strings in an ordered set

Taking strings apart the way the standard library of the source language does:
`trimMatches`, `trim`, `splitOnChar` and `afterPrefix` work on the list of
characters. A loop over an ordered set that starts at a prefix and stops at the
first string without it sees exactly the strings with that prefix
(`range_eq_filter`): they are next to each other in the order.
-/

namespace Strs

open String

/-- The characters with the Unicode property `White_Space`. -/
def isWhiteSpace (c : Char) : Bool :=
  let n := c.toNat
  (9 ≤ n && n ≤ 13) || n == 32 || n == 0x85 || n == 0xA0 || n == 0x1680 ||
    (0x2000 ≤ n && n ≤ 0x200A) || n == 0x2028 || n == 0x2029 || n == 0x202F || n == 0x205F ||
    n == 0x3000

/-- Without the characters with `p` at both ends. -/
def trimWhere (p : Char → Bool) (s : String) : String :=
  ofList ((s.toList.dropWhile p).rdropWhile p)

/-- `str::trim`. -/
def trimWhite (s : String) : String := trimWhere isWhiteSpace s

/-- `str::trim_matches` of one character. -/
def trimMatches (c : Char) (s : String) : String := trimWhere (· == c) s

/-- `str::split` at one character: the pieces between, empty ones included. -/
def splitOnChar (c : Char) (s : String) : List String := (s.toList.splitOn c).map ofList

/-- `str::strip_prefix`. -/
def afterPrefix (p s : String) : Option String := (s.toList.dropPrefix? p.toList).map ofList

theorem afterPrefix_eq_some {p s r : String} : s = p ++ r ↔ afterPrefix p s = some r := by
  unfold afterPrefix
  rw [Option.map_eq_some_iff, ← toList_inj, toList_append]
  constructor
  · intro h
    exact ⟨r.toList, List.dropPrefix?_eq_some_iff.mpr ⟨p.toList, h, beq_self_eq_true _⟩,
      ofList_toList⟩
  · rintro ⟨l, hl, rfl⟩
    obtain ⟨q, hs, hq⟩ := List.dropPrefix?_eq_some_iff.mp hl
    rw [eq_of_beq hq] at hs
    rw [hs, toList_ofList]

theorem afterPrefix_isSome {p s : String} :
    (afterPrefix p s).isSome = true ↔ p.toList <+: s.toList := by
  rw [Option.isSome_iff_exists]
  constructor
  · rintro ⟨r, hr⟩
    exact ⟨r.toList, by rw [afterPrefix_eq_some.mpr hr, toList_append]⟩
  · rintro ⟨r, hr⟩
    refine ⟨ofList r, afterPrefix_eq_some.mp ?_⟩
    rw [← toList_inj, ← hr, toList_append, toList_ofList]

/-- A list with a prefix is not before it. -/
theorem not_append_lt (l r : List Char) : ¬ l ++ r < l := by
  induction l with
  | nil => exact List.not_lt_nil _
  | cons c l ih =>
    rw [List.cons_append, List.cons_lt_cons_iff]
    rintro (hlt | ⟨-, hlt⟩)
    · exact lt_irrefl c hlt
    · exact ih hlt

/-- A string between a prefix and a string with it has the prefix. -/
theorem afterPrefix_of_between {p s t r : String} (hs : ¬ s < p) (hst : s < t)
    (ht : afterPrefix p t = some r) : ∃ q, afterPrefix p s = some q := by
  rw [← afterPrefix_eq_some] at ht
  subst ht
  rw [lt_iff_toList_lt] at hs hst
  rw [toList_append] at hst
  obtain ⟨q, hq⟩ := List.prefix_of_between hs (not_lt.mpr hst.le)
  refine ⟨ofList q, afterPrefix_eq_some.mp (toList_inj.mp ?_)⟩
  rw [toList_append, toList_ofList, hq]

/-- A string with a prefix is not before it. -/
theorem not_lt_of_afterPrefix {p s r : String} (h : afterPrefix p s = some r) : ¬ s < p := by
  rw [← afterPrefix_eq_some] at h
  subst h
  rw [lt_iff_toList_lt, toList_append]
  intro hlt
  exact absurd hlt (not_append_lt p.toList r.toList)

/-- `BTreeSet::range` from a prefix on, left at the first string without it. -/
def prefixRange (p : String) (l : List String) : List String :=
  ((l.dropWhile (· < p)).map (afterPrefix p)).takeWhile Option.isSome |>.reduceOption

/-- In an ordered list, a scan from `p` on sees all of a run of elements that begins behind `p`. -/
theorem scan_eq_filter {α β : Type} [Preorder β] [DecidableLT β] {key : α → β} {P : α → Bool} {p : β}
    {l : List α} (hstart : ∀ x, P x = true → ¬ key x < p)
    (hrun : ∀ x y, ¬ key x < p → key x < key y → P y = true → P x = true)
    (h : l.Pairwise fun x y => key x < key y) :
    (l.dropWhile fun x => decide (key x < p)).takeWhile P = l.filter P := by
  induction l with
  | nil => rfl
  | cons x l ih =>
    obtain ⟨hx, hl⟩ := List.pairwise_cons.mp h
    by_cases hlt : key x < p
    · rw [List.dropWhile_cons_of_pos (by simpa using hlt), ih hl,
        List.filter_cons_of_neg fun hP => hstart x hP hlt]
    · rw [List.dropWhile_cons_of_neg (by simpa using hlt)]
      by_cases hP : P x = true
      · have hall : l.dropWhile (fun x => decide (key x < p)) = l := by
          cases l with
          | nil => rfl
          | cons y l =>
            refine List.dropWhile_cons_of_neg ?_
            simpa using fun hy => hlt (lt_trans (hx y List.mem_cons_self) hy)
        rw [List.takeWhile_cons_of_pos hP, List.filter_cons_of_pos hP, ← ih hl, hall]
      · -- what comes behind `x` is not in the run either
        rw [List.takeWhile_cons_of_neg hP, List.filter_cons_of_neg hP, eq_comm,
          List.filter_eq_nil_iff]
        exact fun y hy hPy => hP (hrun x y hlt (hx y hy) hPy)

theorem isPrefixOf_iff {p s : String} :
    p.toList.isPrefixOf s.toList = true ↔ ∃ r, afterPrefix p s = some r := by
  rw [List.isPrefixOf_iff_prefix]
  constructor
  · rintro ⟨r, hr⟩
    refine ⟨String.ofList r, afterPrefix_eq_some.mp (String.toList_inj.mp ?_)⟩
    rw [String.toList_append, String.toList_ofList, hr]
  · rintro ⟨r, hr⟩
    rw [← afterPrefix_eq_some] at hr
    rw [hr, String.toList_append]
    exact List.prefix_append _ _

/-- **A range at a prefix is a filter.** Of a list that is ordered by a key the elements whose key
has a prefix are those that a scan sees which starts at the prefix. -/
theorem range_eq_filter {α : Type} {key : α → String} {p : String} {l : List α}
    (h : l.Pairwise fun a b => key a < key b) :
    (l.dropWhile fun a => decide (key a < p)).takeWhile (fun a => p.toList.isPrefixOf (key a).toList) =
      l.filter fun a => p.toList.isPrefixOf (key a).toList := by
  refine scan_eq_filter (fun a ha => ?_) (fun a b hlt hbefore hb => ?_) h
  · obtain ⟨r, hr⟩ := isPrefixOf_iff.mp ha
    exact not_lt_of_afterPrefix hr
  · obtain ⟨r, hr⟩ := isPrefixOf_iff.mp hb
    exact isPrefixOf_iff.mpr (afterPrefix_of_between hlt hbefore hr)

/-- The strings behind a prefix, in order. -/
theorem prefixRange_eq {p : String} {l : List String} (h : l.Pairwise (· < ·)) :
    prefixRange p l = l.filterMap (afterPrefix p) := by
  have hsome : Option.isSome ∘ afterPrefix p = fun s => p.toList.isPrefixOf s.toList := by
    funext s
    rw [Bool.eq_iff_iff, isPrefixOf_iff]
    exact Option.isSome_iff_exists
  have hrange : (l.dropWhile fun s => decide (s < p)).takeWhile
      (fun s => p.toList.isPrefixOf s.toList) = l.filter fun s => p.toList.isPrefixOf s.toList :=
    range_eq_filter h
  have hreduce : ∀ l : List (Option String), l.reduceOption = l.filterMap id := fun _ => rfl
  unfold prefixRange
  rw [List.takeWhile_map, hsome, hrange, ← hsome, hreduce, List.filterMap_map,
    List.filterMap_filter]
  refine List.filterMap_congr fun s _ => ?_
  rcases hs : afterPrefix p s with _ | r
  · simp [hs]
  · simp [hs]

theorem mem_prefixRange {p r : String} {l : List String} (h : l.Pairwise (· < ·)) :
    r ∈ prefixRange p l ↔ p ++ r ∈ l := by
  rw [prefixRange_eq h, List.mem_filterMap]
  constructor
  · rintro ⟨s, hs, hr⟩
    rw [← afterPrefix_eq_some] at hr
    exact hr ▸ hs
  · intro hmem
    exact ⟨p ++ r, hmem, afterPrefix_eq_some.mp rfl⟩

/-- Splitting at a character that stands after a piece without it. -/
theorem splitOnChar_append {c : Char} {a : String} {l : List Char} (ha : c ∉ a.toList) :
    splitOnChar c (ofList (a.toList ++ c :: l)) = a :: splitOnChar c (ofList l) := by
  unfold splitOnChar
  rw [toList_ofList, toList_ofList, List.splitOn_append_cons_self_of_not_mem ha, List.map_cons,
    ofList_toList]

/-- A text without the character is one piece. -/
theorem splitOnChar_self {c : Char} {a : String} (ha : c ∉ a.toList) : splitOnChar c a = [a] := by
  unfold splitOnChar
  rw [List.splitOn_eq_singleton ha, List.map_singleton, ofList_toList]

/-- Trimming twice is trimming once. -/
theorem trimWhere_trimWhere (p : Char → Bool) (s : String) :
    trimWhere p (trimWhere p s) = trimWhere p s := by
  unfold trimWhere
  rw [toList_ofList]
  have hpre := List.rdropWhile_prefix p (s.toList.dropWhile p)
  have hhead : ((s.toList.dropWhile p).rdropWhile p).dropWhile p =
      (s.toList.dropWhile p).rdropWhile p := by
    rcases hl : (s.toList.dropWhile p).rdropWhile p with _ | ⟨c, l⟩
    · rfl
    · rw [hl] at hpre
      obtain ⟨k, hk⟩ := hpre
      refine List.dropWhile_cons_of_neg ?_
      have hne : s.toList.dropWhile p ≠ [] := by
        rw [← hk]
        exact List.cons_ne_nil _ _
      have hc := List.head_dropWhile_not p hne
      simp only [← hk, List.cons_append, List.head_cons] at hc
      simp [hc]
  rw [hhead, List.rdropWhile_idempotent]

/-- A text with three pieces or more starts with the first two. -/
theorem eq_of_splitOnChar {c : Char} {s a b r : String} {rest : List String}
    (h : splitOnChar c s = a :: b :: r :: rest) :
    ∃ t, s.toList = a.toList ++ c :: (b.toList ++ c :: t) := by
  unfold splitOnChar at h
  have hs : [c].intercalate (s.toList.splitOn c) = s.toList := List.intercalate_splitOn c
  rcases hl : s.toList.splitOn c with _ | ⟨x, _ | ⟨y, _ | ⟨z, l⟩⟩⟩ <;> rw [hl] at h hs <;>
    simp only [List.map_cons, List.map_nil, List.cons.injEq, reduceCtorEq, and_false] at h
  obtain ⟨rfl, rfl, -⟩ := h
  refine ⟨[c].intercalate (z :: l), ?_⟩
  rw [← hs, toList_ofList, toList_ofList]
  simp [List.intercalate]

/-- Two texts that are equal have equal first parts and equal rests. -/
theorem part_of_eq {c : Char} {x y a b : List Char} (hx : c ∉ x) (hy : c ∉ y)
    (h : x ++ c :: a = y ++ c :: b) : x = y ∧ a = b := by
  obtain ⟨rfl, -⟩ := List.part_of_prefix hx hy ⟨[], by rw [List.append_nil, h]⟩
  exact ⟨rfl, (List.cons.inj (List.append_cancel_left h)).2⟩

/-! ## Numbers -/

/-- A number is written with digits and a minus sign. -/
theorem mem_toString {z : ℤ} {c : Char} (h : c ∈ (toString z).toList) :
    c = '-' ∨ c.isDigit = true := by
  have hnat : ∀ n : ℕ, c ∈ (toString n).toList → c.isDigit = true := by
    intro n hn
    rw [Nat.toString_eq_repr, Nat.toList_repr] at hn
    exact Nat.isDigit_of_mem_toDigits (by decide) (by decide) hn
  cases z with
  | ofNat n => exact .inr (hnat n h)
  | negSucc n =>
    replace h : c ∈ ("-" ++ toString (n + 1)).toList := h
    rw [String.toList_append, List.mem_append] at h
    rcases h with h | h
    · exact .inl (List.mem_singleton.mp h)
    · exact .inr (hnat _ h)

theorem toString_ne_empty (z : ℤ) : toString z ≠ "" := by
  cases z with
  | ofNat n => exact Nat.repr_ne_empty
  | negSucc n =>
    intro h
    replace h : "-" ++ toString (n + 1) = "" := h
    simp at h

theorem not_mem_toString {z : ℤ} {c : Char} (h : c ≠ '-' ∧ c.isDigit = false) :
    c ∉ (toString z).toList := by
  intro hmem
  rcases mem_toString hmem with hc | hc
  · exact h.1 hc
  · exact absurd (h.2.symm.trans hc) Bool.false_ne_true

end Strs
