import Inferx.Selector.Match

/-!
# Comparing labels and requirements

`Conflict` looks the labels of the smaller map up in the bigger one, in the order of their
keys, and gives up at the first that is not there. `Equ` compares how many values two
requirements hold and looks for the values of one in the set of the other's; `Equal` compares
how many they hold, and then each value with itself.
-/

namespace Inferx.Selector

open Strs String

/-! ## Labels -/

/-- The loop of `Conflict`. -/
def conflictLoop (big : Labels) : List (String × String) → Bool
  | [] => false
  | (k, v) :: small =>
    match big[k]? with
    | none => false
    | some val => if v ≠ val then true else conflictLoop big small

/-- `Labels::Conflict`. -/
def Labels.conflict (self labels : Labels) : Bool :=
  if self.size < labels.size then conflictLoop labels self.toList
  else conflictLoop self labels.toList

namespace Labels

variable {a b small big : Labels} {k : String}

/-- The key has two values. -/
def Clash (a b : Labels) (k : String) : Prop := ∃ v w, a[k]? = some v ∧ b[k]? = some w ∧ v ≠ w

/-- If there is a clash, then there is one with no key before it that `big` lacks. -/
def ClashIsReached (small big : Labels) : Prop :=
  (∃ k, Clash small big k) → ∃ k, Clash small big k ∧ ∀ k' ∈ small, k' < k → k' ∈ big

/-- `Conflict` is about the two maps and finds their clashes. -/
structure ConflictAgrees (a b : Labels) : Prop where
  symm : conflict a b = conflict b a
  iff : conflict a b = true ↔ ∃ k, Clash a b k

theorem Clash.symm (h : Clash a b k) : Clash b a k := by
  obtain ⟨v, w, hv, hw, hne⟩ := h
  exact ⟨w, v, hw, hv, hne.symm⟩

theorem exists_clash_comm : (∃ k, Clash a b k) ↔ ∃ k, Clash b a k :=
  ⟨fun ⟨k, h⟩ => ⟨k, h.symm⟩, fun ⟨k, h⟩ => ⟨k, h.symm⟩⟩

/-- Keys that come in order: the loop gets as far as the first that is missing. -/
theorem conflictLoop_eq_true {l : List (String × String)} (hl : l.Pairwise fun e f => e.1 < f.1) :
    conflictLoop big l = true ↔
      ∃ e ∈ l, (∃ w, big[e.1]? = some w ∧ e.2 ≠ w) ∧ ∀ f ∈ l, f.1 < e.1 → f.1 ∈ big := by
  induction l with
  | nil => simp [conflictLoop]
  | cons e l ih =>
    obtain ⟨k, v⟩ := e
    obtain ⟨hfirst, hrest⟩ := List.pairwise_cons.mp hl
    cases hk : big[k]? with
    | none =>
      have hmissing : k ∉ big := fun hmem => by
        rw [Std.ExtTreeMap.getElem?_eq_some_getElem hmem] at hk
        cases hk
      simp only [conflictLoop, hk, Bool.false_eq_true, false_iff]
      rintro ⟨e, he, ⟨w, hw, -⟩, hbefore⟩
      rcases List.mem_cons.mp he with rfl | he
      · rw [hk] at hw
        cases hw
      · exact hmissing (hbefore _ List.mem_cons_self (hfirst e he))
    | some val =>
      by_cases hne : v = val
      · -- the loop goes on, and `k` is not missing
        have hmem : k ∈ big := Std.ExtTreeMap.mem_iff_isSome_getElem?.mpr (by rw [hk]; rfl)
        simp only [conflictLoop, hk, hne, ne_eq, not_true_eq_false, if_false, ih hrest]
        constructor
        · rintro ⟨e, he, hclash, hbefore⟩
          refine ⟨e, List.mem_cons_of_mem _ he, hclash, fun f hf hlt => ?_⟩
          rcases List.mem_cons.mp hf with rfl | hf
          · exact hmem
          · exact hbefore f hf hlt
        · rintro ⟨e, he, ⟨w, hw, hew⟩, hbefore⟩
          rcases List.mem_cons.mp he with rfl | he
          · rw [hk] at hw
            exact absurd (Option.some.inj hw) hew
          · exact ⟨e, he, ⟨w, hw, hew⟩, fun f hf => hbefore f (List.mem_cons_of_mem _ hf)⟩
      · simp only [conflictLoop, hk, ne_eq, hne, not_false_eq_true, if_true, true_iff]
        refine ⟨(k, v), List.mem_cons_self, ⟨val, hk, hne⟩, fun f hf hlt => ?_⟩
        rcases List.mem_cons.mp hf with rfl | hf
        · exact absurd hlt (lt_irrefl k)
        · exact absurd hlt (lt_asymm (hfirst f hf))

/-- **What the loop finds** in a whole map. -/
theorem conflictLoop_toList : conflictLoop big small.toList = true ↔
    ∃ k, Clash small big k ∧ ∀ k' ∈ small, k' < k → k' ∈ big := by
  have hsorted : small.toList.Pairwise fun e f => e.1 < f.1 :=
    Std.ExtTreeMap.ordered_keys_toList.imp fun h => compare_lt_iff_lt.mp h
  rw [conflictLoop_eq_true hsorted]
  constructor
  · rintro ⟨⟨k, v⟩, he, ⟨w, hw, hne⟩, hbefore⟩
    refine ⟨k, ⟨v, w, BTreeMap.mem_toList.mp he, hw, hne⟩, fun k' hk' hlt => ?_⟩
    have hmem : (k', small[k']) ∈ small.toList :=
      BTreeMap.mem_toList.mpr (Std.ExtTreeMap.getElem?_eq_some_getElem hk')
    exact hbefore (k', small[k']) hmem hlt
  · rintro ⟨k, ⟨v, w, hv, hw, hne⟩, hbefore⟩
    refine ⟨(k, v), BTreeMap.mem_toList.mpr hv, ⟨w, hw, hne⟩, ?_⟩
    rintro ⟨k', v'⟩ hmem hlt
    apply hbefore k' _ hlt
    rw [Std.ExtTreeMap.mem_iff_isSome_getElem?, BTreeMap.mem_toList.mp hmem]
    rfl

/-- With no key missing before a clash, the loop finds it. -/
theorem conflictLoop_iff : (conflictLoop big small.toList = true ↔ ∃ k, Clash small big k) ↔
    ClashIsReached small big := by
  rw [conflictLoop_toList]
  constructor
  · exact fun h => h.mpr
  · exact fun h => ⟨fun ⟨k, hclash, _⟩ => ⟨k, hclash⟩, h⟩

theorem conflict_of_lt (h : a.size < b.size) : conflict a b = conflictLoop b a.toList := by
  simp only [conflict, if_pos h]

theorem conflict_of_le (h : b.size ≤ a.size) : conflict a b = conflictLoop a b.toList := by
  simp only [conflict, if_neg (not_lt.mpr h)]

theorem ConflictAgrees.comm : ConflictAgrees a b ↔ ConflictAgrees b a := by
  have hcomm : ∀ {a b : Labels}, ConflictAgrees a b → ConflictAgrees b a := fun h =>
    ⟨h.symm.symm, by rw [← h.symm, h.iff, exists_clash_comm]⟩
  exact ⟨hcomm, hcomm⟩

theorem conflictAgrees_of_lt (h : a.size < b.size) :
    ConflictAgrees a b ↔ ClashIsReached a b := by
  rw [← conflictLoop_iff, ← conflict_of_lt h]
  refine ⟨ConflictAgrees.iff, fun hiff => ⟨?_, hiff⟩⟩
  rw [conflict_of_lt h, conflict_of_le h.le]

/-- Maps of one size: each call looks through its second one. -/
theorem conflictAgrees_of_size_eq (h : a.size = b.size) :
    ConflictAgrees a b ↔ ClashIsReached a b ∧ ClashIsReached b a := by
  rw [← conflictLoop_iff, ← conflictLoop_iff, ← conflict_of_le h.le, ← conflict_of_le h.ge,
    exists_clash_comm (a := b)]
  constructor
  · exact fun hagrees => ⟨hagrees.symm ▸ hagrees.iff, hagrees.iff⟩
  · rintro ⟨hba, hab⟩
    exact ⟨Bool.eq_iff_iff.mpr (hab.trans hba.symm), hab⟩

/-- **`Conflict` finds the clashes** that the maps it looks through reach. -/
theorem conflictAgrees_iff : ConflictAgrees a b ↔
    (a.size ≤ b.size → ClashIsReached a b) ∧ (b.size ≤ a.size → ClashIsReached b a) := by
  rcases lt_trichotomy a.size b.size with h | h | h
  · rw [conflictAgrees_of_lt h]
    exact ⟨fun hreached => ⟨fun _ => hreached, fun hle => absurd h (not_lt.mpr hle)⟩,
      fun hboth => hboth.1 h.le⟩
  · rw [conflictAgrees_of_size_eq h]
    exact ⟨fun hboth => ⟨fun _ => hboth.1, fun _ => hboth.2⟩,
      fun hboth => ⟨hboth.1 h.le, hboth.2 h.ge⟩⟩
  · rw [ConflictAgrees.comm, conflictAgrees_of_lt h]
    exact ⟨fun hreached => ⟨fun hle => absurd h (not_lt.mpr hle), fun _ => hreached⟩,
      fun hboth => hboth.2 h.le⟩

end Labels

/-! ## Requirements -/

namespace HeldRequirement

variable {r s : HeldRequirement}

/-- `Values`. -/
def values (r : HeldRequirement) : Finset (List Char) := r.strVals.toFinset

/-- `Requirement::Equ`. -/
def equ (self other : HeldRequirement) : Bool :=
  if self.strVals.length ≠ other.strVals.length then false
  else if other.strVals.any fun str => decide (str ∉ self.strVals.toFinset) then false
  else decide (self.key = other.key) && decide (self.op = other.op)

/-- `Requirement::Equal`: the loop has the values of `self` on both sides. -/
def equal (self x : HeldRequirement) : Bool :=
  if self.key ≠ x.key then false
  else if self.op ≠ x.op then false
  else if self.strVals.length ≠ x.strVals.length then false
  else !(List.range self.strVals.length).any fun i => decide (self.strVals[i]? ≠ self.strVals[i]?)

/-- The comparison is about the two requirements, and finds whether key, operator and the set
of values are the same. -/
structure AgreesAsSets (compares : HeldRequirement → HeldRequirement → Bool)
    (r s : HeldRequirement) : Prop where
  symm : compares r s = compares s r
  iff : compares r s = true ↔ r.key = s.key ∧ r.op = s.op ∧ r.values = s.values

/-- One key and one operator. -/
def SameOp (r s : HeldRequirement) : Prop := r.key = s.key ∧ r.op = s.op

/-- As many values, each counted as often as it is held. -/
def SameLength (r s : HeldRequirement) : Prop := r.strVals.length = s.strVals.length

/-- The values of one are among those of the other. -/
def Nested (r s : HeldRequirement) : Prop := r.values ⊆ s.values ∨ s.values ⊆ r.values

/-- Of one operator and nested, they hold as many values as they hold as sets. -/
def CountedAsSets (r s : HeldRequirement) : Prop :=
  r.SameOp s → r.Nested s → (r.SameLength s ↔ r.values.card = s.values.card)

theorem SameOp.symm (h : r.SameOp s) : s.SameOp r := ⟨h.1.symm, h.2.symm⟩

theorem Nested.symm (h : r.Nested s) : s.Nested r := Or.symm h

theorem CountedAsSets.symm (h : r.CountedAsSets s) : s.CountedAsSets r := by
  intro hop hnested
  have hiff := h hop.symm hnested.symm
  exact ⟨fun hlength => (hiff.mp hlength.symm).symm, fun hcard => (hiff.mpr hcard.symm).symm⟩

/-- Nested sets are as big as each other only if they are one. -/
theorem Nested.values_eq_iff (h : r.Nested s) :
    r.values = s.values ↔ r.values.card = s.values.card := by
  constructor
  · exact congrArg Finset.card
  · intro hcard
    rcases h with hsub | hsub
    · exact Finset.eq_of_subset_of_card_le hsub hcard.ge
    · exact (Finset.eq_of_subset_of_card_le hsub hcard.le).symm

theorem equal_eq_true : r.equal s = true ↔ r.SameOp s ∧ r.SameLength s := by
  simp [equal, SameOp, SameLength, and_assoc]

theorem equal_comm (r s : HeldRequirement) : r.equal s = s.equal r := by
  apply Bool.eq_iff_iff.mpr
  rw [equal_eq_true, equal_eq_true]
  exact ⟨fun h => ⟨h.1.symm, h.2.symm⟩, fun h => ⟨h.1.symm, h.2.symm⟩⟩

theorem equ_eq_true : r.equ s = true ↔ r.SameLength s ∧ s.values ⊆ r.values ∧ r.SameOp s := by
  simp [equ, SameOp, SameLength, values, Finset.subset_iff]

/-- `Equal` sees no values, only how many there are. -/
theorem equal_agrees_iff :
    AgreesAsSets equal r s ↔ (r.SameOp s → (r.SameLength s ↔ r.values = s.values)) := by
  constructor
  · intro hagrees hop
    have hiff := hagrees.iff
    rw [equal_eq_true, ← and_assoc] at hiff
    exact ⟨fun hlength => (hiff.mp ⟨hop, hlength⟩).2, fun hvalues => (hiff.mpr ⟨hop, hvalues⟩).2⟩
  · intro h
    refine ⟨equal_comm r s, ?_⟩
    rw [equal_eq_true, ← and_assoc]
    exact and_congr_right h

theorem equ_of_counted (h : r.CountedAsSets s) :
    r.equ s = true ↔ r.key = s.key ∧ r.op = s.op ∧ r.values = s.values := by
  rw [equ_eq_true]
  constructor
  · rintro ⟨hlength, hsub, hop⟩
    have hnested : r.Nested s := .inr hsub
    exact ⟨hop.1, hop.2, hnested.values_eq_iff.mpr ((h hop hnested).mp hlength)⟩
  · rintro ⟨hkey, hop, hvalues⟩
    have hnested : r.Nested s := .inl (Finset.subset_of_eq hvalues)
    exact ⟨(h ⟨hkey, hop⟩ hnested).mpr (congrArg Finset.card hvalues),
      Finset.subset_of_eq hvalues.symm, hkey, hop⟩

/-- **`Equ` compares sets** as far as it counts as many values as they have. -/
theorem equ_agrees_iff : AgreesAsSets equ r s ↔ r.CountedAsSets s := by
  constructor
  · intro hagrees hop hnested
    rw [← hnested.values_eq_iff]
    constructor
    · intro hlength
      -- one of the two calls looks the smaller set up in the bigger one
      have hequ : r.equ s = true := by
        rcases hnested with hsub | hsub
        · rw [hagrees.symm]
          exact equ_eq_true.mpr ⟨hlength.symm, hsub, hop.symm⟩
        · exact equ_eq_true.mpr ⟨hlength, hsub, hop⟩
      exact (hagrees.iff.mp hequ).2.2
    · intro hvalues
      exact (equ_eq_true.mp (hagrees.iff.mpr ⟨hop.1, hop.2, hvalues⟩)).1
  · intro h
    refine ⟨?_, equ_of_counted h⟩
    apply Bool.eq_iff_iff.mpr
    rw [equ_of_counted h, equ_of_counted h.symm, eq_comm (a := r.key), eq_comm (a := r.op),
      eq_comm (a := r.values)]

end HeldRequirement

/-! ## All three -/

section

open HeldRequirement

/-- **Where the comparisons agree with sets**: `Conflict` has to reach a clash before a key that
is missing, `Equal` and `Equ` have to count as many values as there are. -/
theorem comparisons_agree_iff (a b : Labels) (r s : HeldRequirement) :
    (Labels.ConflictAgrees a b ↔
      (a.size ≤ b.size → Labels.ClashIsReached a b) ∧
        (b.size ≤ a.size → Labels.ClashIsReached b a)) ∧
    (AgreesAsSets equal r s ↔ (r.SameOp s → (r.SameLength s ↔ r.values = s.values))) ∧
    (AgreesAsSets equ r s ↔ r.CountedAsSets s) :=
  ⟨Labels.conflictAgrees_iff, equal_agrees_iff, equ_agrees_iff⟩

/-- A clash at `b` that only one of the calls gets to, two values that are not the same, and a
value that is held twice. -/
theorem comparisons_disagree :
    ¬ Labels.ConflictAgrees (((∅ : Labels).insert "a" "1").insert "b" "2")
      (((∅ : Labels).insert "b" "1").insert "c" "1") ∧
    ¬ AgreesAsSets equal ⟨['k'], .isIn, [['x']]⟩ ⟨['k'], .isIn, [['y']]⟩ ∧
    ¬ AgreesAsSets equ ⟨['k'], .isIn, [['x'], ['y']]⟩ ⟨['k'], .isIn, [['x'], ['x']]⟩ := by
  refine ⟨fun h => ?_, fun h => ?_, fun h => ?_⟩
  · have hsymm := h.symm
    revert hsymm
    decide +kernel
  · have hiff := h.iff
    revert hiff
    decide +kernel
  · have hsymm := h.symm
    revert hsymm
    decide +kernel

end

end Inferx.Selector
