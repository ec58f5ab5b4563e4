import Inferx.Selector.Labels

/-!
# What selectors ask of labels

A requirement asks for one of five things, and `New` sees to it that it has the values
for it. The number of a `gt` or `lt` is checked as a `u64` and compared as an `i64`: a
comparison with a number that is no `i64` is false. `RequiresExactMatch` reads a
selector from its beginning and stops at the first requirement that is of no use to it.

Here a requirement holds its values as a `Vec`, in any order and more than once.
-/

namespace Inferx.Selector

open Strs String

/-- `Requirement`, with its values in order. -/
structure HeldRequirement where
  key : List Char
  op : SelectionOp
  strVals : List (List Char)
  deriving DecidableEq, Repr

namespace HeldRequirement

/-- `Requirement::New`. -/
def new (key : List Char) (op : SelectionOp) (vals : List (List Char)) :
    Except ParseError HeldRequirement := do
  validateLabelKey key
  match op with
  | .none => .error .panic
  | .isIn | .notIn =>
    if vals.length = 0 then
      .error (.common "for 'in', 'notin' operators, values set can't be empty")
    else .ok ⟨key, op, vals⟩
  | .equals | .doubleEquals | .notEquals =>
    if vals.length ≠ 1 then
      .error (.common "exact-match compatibility requires one single value")
    else .ok ⟨key, op, vals⟩
  | .exist | .doesNotExist =>
    if vals.length ≠ 0 then
      .error (.common "values set must be empty for exists and does not exist")
    else .ok ⟨key, op, vals⟩
  | .greaterThan | .lessThan =>
    if vals.length ≠ 1 then
      .error (.common "for 'Gt', 'Lt' operators, exactly one value is required")
    else if vals.all fun v => (parseU64 v).isSome then .ok ⟨key, op, vals⟩
    else .error (.common "for 'Gt', 'Lt' operators, the value must be an integer")

/-- The requirement of the set of the values. -/
def toRequirement (r : HeldRequirement) : Requirement := ⟨r.key, r.op, r.strVals.toFinset⟩

/-- `Matchs`. -/
def matchs (r : HeldRequirement) (ls : Labels) : Except ParseError Bool :=
  r.toRequirement.matchs r.strVals ls

end HeldRequirement

/-- `Selector::Match`. -/
def selectorMatchs (ls : Labels) : List HeldRequirement → Except ParseError Bool
  | [] => .ok true
  | r :: reqs => do
    if ← r.matchs ls then selectorMatchs ls reqs else return false

/-- `RequiresExactMatch`. -/
def requiresExactMatch (label : List Char) : List HeldRequirement → Option (List Char)
  | [] => none
  | r :: reqs =>
    if r.key = label then
      match r.op with
      | .equals | .doubleEquals | .isIn =>
        match r.strVals with
        | [v] => some v
        | _ => requiresExactMatch label reqs
      | _ => none
    else none

/-! ## The documented cases -/

/-- The integer that a text stands for. -/
def readInt (cs : List Char) : Option ℤ :=
  if cs.head? = some '-' then (parseDigits cs.tail).map fun n : ℕ => -(n : ℤ)
  else if cs.head? = some '+' then (parseDigits cs.tail).map fun n : ℕ => (n : ℤ)
  else (parseDigits cs).map fun n : ℕ => (n : ℤ)

/-- Is it an `i64`? -/
def IsI64 (n : ℤ) : Prop := -9223372036854775808 ≤ n ∧ n < 9223372036854775808

instance (n : ℤ) : Decidable (IsI64 n) := inferInstanceAs (Decidable (_ ∧ _))

namespace HeldRequirement

variable (r : HeldRequirement) (ls : Labels)

/-- The value of the requirement's key. -/
def labelValue : Option (List Char) := (ls[ofList r.key]?).map String.toList

/-- The operator is a comparison, the label is the number `l` and the requirement's is `n`. -/
def Compares (l n : ℤ) : Prop :=
  (∃ v, r.labelValue ls = some v ∧ readInt v = some l) ∧
    (∃ v, r.strVals = [v] ∧ readInt v = some n) ∧
    (r.op = .greaterThan ∧ n < l ∨ r.op = .lessThan ∧ l < n)

/-- The documented cases, with `=` and `==` for `in` and `!=` for `notin`. -/
inductive Documented : Prop where
  | exist : r.op = .exist → (r.labelValue ls).isSome = true → Documented
  | isIn {v} : r.op = .isIn ∨ r.op = .equals ∨ r.op = .doubleEquals → r.labelValue ls = some v →
      v ∈ r.strVals → Documented
  | notIn {v} : r.op = .notIn ∨ r.op = .notEquals → r.labelValue ls = some v → v ∉ r.strVals →
      Documented
  | absent : r.op = .doesNotExist ∨ r.op = .notIn ∨ r.op = .notEquals → r.labelValue ls = none →
      Documented
  | compares {l n} : r.Compares ls l n → Documented

end HeldRequirement

theorem parseI64_eq_some {cs : List Char} {n : ℤ} :
    parseI64 cs = some n ↔ readInt cs = some n ∧ IsI64 n := by
  have hread : parseI64 cs = (readInt cs).bind fun n => if IsI64 n then some n else none := by
    have hpow : (2 : ℤ) ^ 63 = 9223372036854775808 := by decide
    unfold parseI64 readInt IsI64
    simp only [hpow]
    split
    next ds =>
      rw [if_pos List.head?_cons, List.tail_cons]
      rcases parseDigits ds with _ | m
      · rfl
      · rfl
    next ds =>
      rw [if_neg (by rw [List.head?_cons]; decide), if_pos List.head?_cons, List.tail_cons]
      rcases parseDigits ds with _ | m
      · rfl
      · rfl
    next hminus hplus =>
      have hhead : ∀ c, cs.head? = some c → cs = c :: cs.tail := fun c hc => by
        cases cs with
        | nil => cases hc
        | cons d ds => rw [Option.some.inj hc, List.tail_cons]
      rw [if_neg fun h => hminus _ (hhead _ h), if_neg fun h => hplus _ (hhead _ h)]
      rcases parseDigits cs with _ | m
      · rfl
      · rfl
  rw [hread, Option.bind_eq_some_iff]
  constructor
  · rintro ⟨m, hm, h⟩
    split at h
    next hfits =>
      cases h
      exact ⟨hm, hfits⟩
    next => cases h
  · rintro ⟨hn, hfits⟩
    exact ⟨n, hn, if_pos hfits⟩

theorem onlyNumber_eq_some {vals : List (List Char)} {n : ℤ} :
    onlyNumber vals = some n ↔ ∃ v, vals = [v] ∧ readInt v = some n ∧ IsI64 n := by
  rcases vals with _ | ⟨v, _ | ⟨w, vals⟩⟩
  · simp [onlyNumber]
  · simp [onlyNumber, parseI64_eq_some]
  · simp [onlyNumber]

namespace HeldRequirement

variable {r : HeldRequirement} {ls : Labels}

/-- Numbers that are compared and satisfy the comparison are `i64`. -/
def Fits (r : HeldRequirement) (ls : Labels) : Prop := ∀ l n, r.Compares ls l n → IsI64 l ∧ IsI64 n

theorem labelValue_eq_some {v : List Char} :
    r.labelValue ls = some v ↔ ls[ofList r.key]? = some (ofList v) := by
  unfold labelValue
  constructor
  · intro h
    obtain ⟨w, hw, rfl⟩ := Option.map_eq_some_iff.mp h
    rw [hw, ofList_toList]
  · intro h
    rw [h, Option.map_some, toList_ofList]

theorem fits_of_op (h : r.op ≠ .greaterThan) (h' : r.op ≠ .lessThan) : r.Fits ls := by
  rintro l n ⟨-, -, ⟨hop, -⟩ | ⟨hop, -⟩⟩
  · exact absurd hop h
  · exact absurd hop h'

theorem bind_labelValue {l : ℤ} : ((ls[ofList r.key]?).bind fun v => parseI64 v.toList) = some l ↔
    (∃ v, r.labelValue ls = some v ∧ readInt v = some l) ∧ IsI64 l := by
  unfold labelValue
  rcases ls[ofList r.key]? with _ | v
  · simp
  · simp [parseI64_eq_some]

/-- A comparison is of the numbers that are read. -/
theorem matchs_numbers (hop : r.op = .greaterThan ∨ r.op = .lessThan) : r.matchs ls = .ok true ↔
    ∃ l n, ((ls[ofList r.key]?).bind fun v => parseI64 v.toList) = some l ∧
      onlyNumber r.strVals = some n ∧ (r.op = .greaterThan ∧ n < l ∨ r.op = .lessThan ∧ l < n) := by
  unfold matchs Requirement.matchs toRequirement
  rcases ls[ofList r.key]? with _ | v
  · rcases hop with hop | hop <;> simp [hop]
  · simp only [Option.bind_some]
    rcases parseI64 v.toList with _ | l
    · rcases hop with hop | hop <;> simp [hop]
    · rcases onlyNumber r.strVals with _ | n
      · rcases hop with hop | hop <;> simp [hop]
      · rcases hop with hop | hop <;> simp [hop]

theorem matchs_compares (hop : r.op = .greaterThan ∨ r.op = .lessThan) :
    r.matchs ls = .ok true ↔ ∃ l n, r.Compares ls l n ∧ IsI64 l ∧ IsI64 n := by
  rw [matchs_numbers hop]
  constructor
  · rintro ⟨l, n, hl, hn, hcompare⟩
    obtain ⟨hlabel, hlfits⟩ := bind_labelValue.mp hl
    obtain ⟨v, hv, hread, hnfits⟩ := onlyNumber_eq_some.mp hn
    exact ⟨l, n, ⟨hlabel, ⟨v, hv, hread⟩, hcompare⟩, hlfits, hnfits⟩
  · rintro ⟨l, n, ⟨hlabel, ⟨v, hv, hread⟩, hcompare⟩, hlfits, hnfits⟩
    exact ⟨l, n, bind_labelValue.mpr ⟨hlabel, hlfits⟩,
      onlyNumber_eq_some.mpr ⟨v, hv, hread, hnfits⟩,
      hcompare⟩

/-- The numbers of a comparison are the only ones. -/
theorem Compares.unique {l n l' n' : ℤ} (h : r.Compares ls l n) (h' : r.Compares ls l' n') :
    l = l' ∧ n = n' := by
  obtain ⟨⟨v, hv, hl⟩, ⟨w, hw, hn⟩, -⟩ := h
  obtain ⟨⟨v', hv', hl'⟩, ⟨w', hw', hn'⟩, -⟩ := h'
  obtain rfl : v = v' := Option.some.inj (hv.symm.trans hv')
  obtain rfl : w = w' := (List.cons.inj (hw.symm.trans hw')).1
  exact ⟨Option.some.inj (hl.symm.trans hl'), Option.some.inj (hn.symm.trans hn')⟩

theorem matchs_isIn (hop : r.op = .isIn ∨ r.op = .equals ∨ r.op = .doubleEquals) :
    r.matchs ls = .ok true ↔ ∃ v, r.labelValue ls = some v ∧ v ∈ r.strVals := by
  unfold matchs Requirement.matchs toRequirement labelValue
  rcases hop with hop | hop | hop <;> rcases ls[ofList r.key]? with _ | v <;> simp [hop]

theorem matchs_notIn (hop : r.op = .notIn ∨ r.op = .notEquals) :
    r.matchs ls = .ok true ↔ ∀ v, r.labelValue ls = some v → v ∉ r.strVals := by
  unfold matchs Requirement.matchs toRequirement labelValue
  rcases hop with hop | hop <;> rcases ls[ofList r.key]? with _ | v <;>
    simp [hop, ← List.forall_mem_ne']

theorem matchs_exist (hop : r.op = .exist) :
    r.matchs ls = .ok true ↔ (r.labelValue ls).isSome = true := by
  unfold matchs Requirement.matchs toRequirement labelValue
  rcases ls[ofList r.key]? with _ | v <;> simp [hop]

theorem matchs_doesNotExist (hop : r.op = .doesNotExist) :
    r.matchs ls = .ok true ↔ r.labelValue ls = none := by
  unfold matchs Requirement.matchs toRequirement labelValue
  rcases ls[ofList r.key]? with _ | v <;> simp [hop]

theorem matchs_none (hop : r.op = .none) : r.matchs ls = .error .panic := by
  unfold matchs Requirement.matchs toRequirement
  simp [hop]

/-- The other operators are as documented. -/
theorem matchs_documented (h : r.op ≠ .greaterThan) (h' : r.op ≠ .lessThan) :
    r.matchs ls = .ok true ↔ r.Documented ls := by
  constructor
  · intro hmatchs
    have notIn : r.op = .notIn ∨ r.op = .notEquals → r.Documented ls := fun hop => by
      rcases hv : r.labelValue ls with _ | v
      · exact .absent (.inr hop) hv
      · exact .notIn hop hv ((matchs_notIn hop).mp hmatchs v hv)
    have isIn : r.op = .isIn ∨ r.op = .equals ∨ r.op = .doubleEquals →
      r.Documented ls := fun hop => by
      obtain ⟨v, hv, hmem⟩ := (matchs_isIn hop).mp hmatchs
      exact .isIn hop hv hmem
    cases hop : r.op with
    | none => rw [matchs_none hop] at hmatchs; cases hmatchs
    | isIn => exact isIn (.inl hop)
    | equals => exact isIn (.inr (.inl hop))
    | doubleEquals => exact isIn (.inr (.inr hop))
    | notIn => exact notIn (.inl hop)
    | notEquals => exact notIn (.inr hop)
    | exist => exact .exist hop ((matchs_exist hop).mp hmatchs)
    | doesNotExist => exact .absent (.inl hop) ((matchs_doesNotExist hop).mp hmatchs)
    | greaterThan => exact absurd hop h
    | lessThan => exact absurd hop h'
  · intro hdoc
    cases hdoc with
    | exist hop hv => exact (matchs_exist hop).mpr hv
    | isIn hop hv hmem => exact (matchs_isIn hop).mpr ⟨_, hv, hmem⟩
    | @notIn v hop hv hmem =>
      refine (matchs_notIn hop).mpr fun w hw => ?_
      rw [hv, Option.some.injEq] at hw
      exact hw ▸ hmem
    | absent hop hv =>
      rcases hop with hop | hop
      · exact (matchs_doesNotExist hop).mpr hv
      · refine (matchs_notIn hop).mpr fun w hw => ?_
        rw [hv] at hw
        cases hw
    | compares hcompares =>
      rcases hcompares.2.2 with ⟨hop, -⟩ | ⟨hop, -⟩
      · exact absurd hop h
      · exact absurd hop h'

/-- **What `Matchs` finds** is documented, as far as the numbers are `i64`. -/
theorem matchs_iff : r.matchs ls = .ok true ↔ r.Documented ls ∧ r.Fits ls := by
  by_cases hop : r.op = .greaterThan ∨ r.op = .lessThan
  · rw [matchs_compares hop]
    constructor
    · rintro ⟨l, n, hcompares, hl, hn⟩
      refine ⟨.compares hcompares, fun l' n' h => ?_⟩
      obtain ⟨rfl, rfl⟩ := hcompares.unique h
      exact ⟨hl, hn⟩
    · rintro ⟨hdoc, hfits⟩
      cases hdoc with
      | exist h => rcases hop with hop | hop <;> simp [hop] at h
      | isIn h => rcases hop with hop | hop <;> simp [hop] at h
      | notIn h => rcases hop with hop | hop <;> simp [hop] at h
      | absent h => rcases hop with hop | hop <;> simp [hop] at h
      | @compares l n h => exact ⟨l, n, h, hfits l n h⟩
  · obtain ⟨h, h'⟩ := not_or.mp hop
    rw [matchs_documented h h']
    exact ⟨fun hdoc => ⟨hdoc, fits_of_op h h'⟩, And.left⟩

/-- `New` lets no requirement through that cannot be asked. -/
theorem new_op {key : List Char} {op : SelectionOp} {vals : List (List Char)}
    (h : new key op vals = .ok r) : r.op ≠ .none := by
  have hop : op ≠ .none := by
    rintro rfl
    unfold new at h
    rcases hkey : validateLabelKey key with e | u <;> rw [hkey] at h <;> cases h
  have heq : r.op = op := by
    unfold new at h
    rcases hkey : validateLabelKey key with e | u
    · rw [hkey] at h
      cases h
    · rw [hkey] at h
      simp only [bind, Except.bind] at h
      repeat' split at h
      all_goals cases h
      all_goals rfl
  exact heq ▸ hop

theorem matchs_total (h : r.op ≠ .none) (ls : Labels) : ∃ b, r.matchs ls = .ok b := by
  unfold matchs Requirement.matchs toRequirement
  cases hop : r.op with
  | none => exact absurd hop h
  | _ => exact ⟨_, rfl⟩

/-- A requirement that `New` accepts. -/
def Accepted (r : HeldRequirement) : Prop := ∃ key op vals, new key op vals = .ok r

theorem Accepted.op (h : r.Accepted) : r.op ≠ .none := by
  obtain ⟨_, _, _, hnew⟩ := h
  exact new_op hnew

end HeldRequirement

/-! ## Selectors -/

theorem selectorMatchs_iff {ls : Labels} {sel : List HeldRequirement} :
    selectorMatchs ls sel = .ok true ↔ ∀ r ∈ sel, r.matchs ls = .ok true := by
  induction sel with
  | nil => simp [selectorMatchs]
  | cons r reqs ih =>
    unfold selectorMatchs
    rw [List.forall_mem_cons, ← ih]
    rcases r.matchs ls with e | _ | _
    · constructor
      · intro h
        cases h
      · rintro ⟨h, -⟩
        cases h
    · constructor
      · intro h
        cases h
      · rintro ⟨h, -⟩
        cases h
    · exact ⟨fun h => ⟨rfl, h⟩, And.right⟩

theorem selectorMatchs_total (ls : Labels) {sel : List HeldRequirement}
    (h : ∀ r ∈ sel, r.op ≠ .none) : ∃ b, selectorMatchs ls sel = .ok b := by
  induction sel with
  | nil => exact ⟨true, rfl⟩
  | cons r reqs ih =>
    obtain ⟨b, hb⟩ := HeldRequirement.matchs_total (h r List.mem_cons_self) ls
    unfold selectorMatchs
    rw [hb]
    cases b with
    | false => exact ⟨false, rfl⟩
    | true => exact ih fun q hq => h q (List.mem_cons_of_mem r hq)

theorem selectorMatchs_perm {ls : Labels} {sel sel' : List HeldRequirement}
    (h : ∀ r ∈ sel, r.op ≠ .none) (hperm : sel.Perm sel') :
    selectorMatchs ls sel' = selectorMatchs ls sel := by
  obtain ⟨b, hb⟩ := selectorMatchs_total ls h
  obtain ⟨b', hb'⟩ := selectorMatchs_total ls fun r hr => h r (hperm.mem_iff.mpr hr)
  have hiff : selectorMatchs ls sel' = .ok true ↔ selectorMatchs ls sel = .ok true := by
    rw [selectorMatchs_iff, selectorMatchs_iff]
    exact ⟨fun hall r hr => hall r (hperm.mem_iff.mp hr),
      fun hall r hr => hall r (hperm.mem_iff.mpr hr)⟩
  rw [hb, hb'] at hiff ⊢
  cases b <;> cases b' <;> simp_all

/-- Each requirement matches where it is documented to, and together they do as one each, in
any order. -/
structure AsDocumented (ls : Labels) (sel : List HeldRequirement) : Prop where
  each : ∀ r ∈ sel, ∃ b, r.matchs ls = .ok b ∧ (b = true ↔ r.Documented ls)
  all : ∃ b, selectorMatchs ls sel = .ok b ∧ (b = true ↔ ∀ r ∈ sel, r.Documented ls)
  anyOrder : ∀ sel', sel.Perm sel' → selectorMatchs ls sel' = selectorMatchs ls sel

/-- **Selectors match as documented** exactly where the comparisons that are satisfied are of
numbers that are `i64`. -/
theorem asDocumented_iff (ls : Labels) {sel : List HeldRequirement} (h : ∀ r ∈ sel, r.Accepted) :
    AsDocumented ls sel ↔ ∀ r ∈ sel, r.Fits ls := by
  have hop : ∀ r ∈ sel, r.op ≠ .none := fun r hr => (h r hr).op
  constructor
  · intro hdoc r hr
    obtain ⟨b, hb, hiff⟩ := hdoc.each r hr
    intro l n hcompares
    have htrue : b = true := hiff.mpr (.compares hcompares)
    exact (HeldRequirement.matchs_iff.mp (htrue ▸ hb)).2 l n hcompares
  · intro hfits
    have hmatchs : ∀ r ∈ sel, (r.matchs ls = .ok true ↔ r.Documented ls) := fun r hr => by
      rw [HeldRequirement.matchs_iff]
      exact ⟨And.left, fun hdoc => ⟨hdoc, hfits r hr⟩⟩
    refine ⟨fun r hr => ?_, ?_, fun sel' hperm => selectorMatchs_perm hop hperm⟩
    · obtain ⟨b, hb⟩ := HeldRequirement.matchs_total (hop r hr) ls
      refine ⟨b, hb, ?_⟩
      rw [← hmatchs r hr, hb, Except.ok.injEq]
    · obtain ⟨b, hb⟩ := selectorMatchs_total ls hop
      refine ⟨b, hb, ?_⟩
      have hall : b = true ↔ selectorMatchs ls sel = .ok true := by rw [hb, Except.ok.injEq]
      rw [hall, selectorMatchs_iff]
      exact forall₂_congr hmatchs

/-- The number is a `u64`, and the label is below it. -/
theorem lessThan_of_u64 : Labels.new "k=5" = .ok ((∅ : Labels).insert "k" "5") ∧
    HeldRequirement.new ['k'] .lessThan ["9223372036854775808".toList]
      = .ok ⟨['k'], .lessThan, ["9223372036854775808".toList]⟩ ∧
    ¬ AsDocumented ((∅ : Labels).insert "k" "5")
      [⟨['k'], .lessThan, ["9223372036854775808".toList]⟩] := by
  refine ⟨?_, by rfl, fun hdoc => ?_⟩
  · have hsplit : splitOnChar ',' "k=5" = [pairText ("k", "5")] := by decide +kernel
    unfold Labels.new
    rw [if_neg (by decide), hsplit, List.foldlM_cons,
      Labels.add_pair (by decide +kernel) (by decide +kernel)]
    rfl
  · obtain ⟨b, hb, hiff⟩ := hdoc.each _ List.mem_cons_self
    have hvalue : HeldRequirement.labelValue ⟨['k'], .lessThan, ["9223372036854775808".toList]⟩
        ((∅ : Labels).insert "k" "5") = some ['5'] := by
      rw [HeldRequirement.labelValue_eq_some]
      exact BTreeMap.get_insert_self ∅ "k" "5"
    have htrue : b = true := hiff.mpr <|
      .compares (l := 5) (n := 9223372036854775808)
        ⟨⟨_, hvalue, by rfl⟩, ⟨_, rfl, by rfl⟩, .inr ⟨rfl, by decide⟩⟩
    have hfits := (HeldRequirement.matchs_iff.mp (htrue ▸ hb)).2 5 9223372036854775808
      ⟨⟨_, hvalue, by rfl⟩, ⟨_, rfl, by rfl⟩, .inr ⟨rfl, by decide⟩⟩
    exact absurd hfits.2 (by decide)

theorem asDocumented_run :
    AsDocumented ((∅ : Labels).insert "k" "5") [⟨['k'], .lessThan, [['7']]⟩] := by
  refine (asDocumented_iff _ ?_).mpr ?_
  · intro r hr
    rw [List.mem_singleton.mp hr]
    exact ⟨['k'], .lessThan, [['7']], by rfl⟩
  · intro r hr
    rw [List.mem_singleton.mp hr]
    rintro l n ⟨⟨v, hv, hl⟩, ⟨w, hw, hn⟩, -⟩
    rw [HeldRequirement.labelValue_eq_some] at hv
    have hget : ((∅ : Labels).insert "k" "5")["k"]? = some "5" := BTreeMap.get_insert_self ∅ "k" "5"
    obtain rfl : v = ['5'] := by
      have hofList := Option.some.inj (hv.symm.trans hget)
      rw [← toList_ofList (l := v), hofList]
      rfl
    obtain rfl : w = ['7'] := (List.cons.inj hw).1.symm
    obtain rfl : l = 5 := (Option.some.inj hl).symm
    obtain rfl : n = 7 := (Option.some.inj hn).symm
    decide

/-! ## The value that a selector requires -/

/-- The requirement is for a value among its own. -/
def HeldRequirement.ForIn (r : HeldRequirement) : Prop :=
  r.op = .isIn ∨ r.op = .equals ∨ r.op = .doubleEquals

/-- The requirement leaves the label one value. -/
def HeldRequirement.Fixes (r : HeldRequirement) (label : List Char) : Prop :=
  r.key = label ∧ r.ForIn ∧ r.strVals.length = 1

/-- What `RequiresExactMatch` finds is the value that the label must have, and it finds one if
a requirement leaves the label one. -/
structure FindsExactMatch (label : List Char) (sel : List HeldRequirement) : Prop where
  sound : ∀ v, requiresExactMatch label sel = some v → ∀ ls : Labels,
    selectorMatchs ls sel = .ok true → ls[ofList label]? = some (ofList v)
  complete : (∃ r ∈ sel, r.Fixes label) → (requiresExactMatch label sel).isSome = true

section ExactMatch

variable {label : List Char} {r : HeldRequirement} {reqs : List HeldRequirement}

theorem requiresExactMatch_single {v : List Char} (hkey : r.key = label) (hfor : r.ForIn)
    (hvals : r.strVals = [v]) : requiresExactMatch label (r :: reqs) = some v := by
  unfold requiresExactMatch
  rw [if_pos hkey, hvals]
  rcases hfor with hop | hop | hop <;> rw [hop]

theorem requiresExactMatch_skip (hkey : r.key = label) (hfor : r.ForIn)
    (hvals : r.strVals.length ≠ 1) :
    requiresExactMatch label (r :: reqs) = requiresExactMatch label reqs := by
  rw [requiresExactMatch, if_pos hkey]
  rcases hs : r.strVals with _ | ⟨v, _ | ⟨w, vals⟩⟩
  · rcases hfor with hop | hop | hop <;> rw [hop]
  · rw [hs] at hvals
    exact absurd rfl hvals
  · rcases hfor with hop | hop | hop <;> rw [hop]

theorem requiresExactMatch_stop (h : ¬ (r.key = label ∧ r.ForIn)) :
    requiresExactMatch label (r :: reqs) = none := by
  unfold requiresExactMatch
  split
  next hkey =>
    cases hop : r.op with
    | isIn => exact absurd ⟨hkey, .inl hop⟩ h
    | equals => exact absurd ⟨hkey, .inr (.inl hop)⟩ h
    | doubleEquals => exact absurd ⟨hkey, .inr (.inr hop)⟩ h
    | _ => rfl
  next => rfl

theorem requiresExactMatch_mem {v : List Char} (h : requiresExactMatch label reqs = some v) :
    ∃ r ∈ reqs, r.key = label ∧ r.ForIn ∧ r.strVals = [v] := by
  induction reqs with
  | nil => cases h
  | cons r reqs ih =>
    by_cases huse : r.key = label ∧ r.ForIn
    · by_cases hlen : r.strVals.length = 1
      · obtain ⟨w, hw⟩ := List.length_eq_one_iff.mp hlen
        rw [requiresExactMatch_single huse.1 huse.2 hw, Option.some.injEq] at h
        exact ⟨r, List.mem_cons_self, huse.1, huse.2, h ▸ hw⟩
      · rw [requiresExactMatch_skip huse.1 huse.2 hlen] at h
        obtain ⟨q, hq, hfix⟩ := ih h
        exact ⟨q, List.mem_cons_of_mem r hq, hfix⟩
    · rw [requiresExactMatch_stop huse] at h
      cases h

/-- A value is found where the requirements before one that fixes the label are of use. -/
theorem requiresExactMatch_isSome : (requiresExactMatch label reqs).isSome = true ↔
    ∃ front r back, reqs = front ++ r :: back ∧ r.Fixes label ∧
      ∀ q ∈ front, q.key = label ∧ q.ForIn := by
  induction reqs with
  | nil =>
    constructor
    · intro h
      cases h
    · rintro ⟨front, r, back, h, -⟩
      exact absurd h.symm (List.append_ne_nil_of_right_ne_nil front (List.cons_ne_nil r back))
  | cons r reqs ih =>
    constructor
    · intro h
      by_cases huse : r.key = label ∧ r.ForIn
      · by_cases hlen : r.strVals.length = 1
        · exact ⟨[], r, reqs, rfl, ⟨huse.1, huse.2, hlen⟩, fun q hq => absurd hq List.not_mem_nil⟩
        · rw [requiresExactMatch_skip huse.1 huse.2 hlen] at h
          obtain ⟨front, q, back, rfl, hfix, hfront⟩ := ih.mp h
          exact ⟨r :: front, q, back, rfl, hfix, List.forall_mem_cons.mpr ⟨huse, hfront⟩⟩
      · rw [requiresExactMatch_stop huse] at h
        cases h
    · rintro ⟨front, q, back, h, hfix, hfront⟩
      rcases front with _ | ⟨p, front⟩
      · obtain ⟨rfl, rfl⟩ := List.cons.inj h
        obtain ⟨w, hw⟩ := List.length_eq_one_iff.mp hfix.2.2
        rw [requiresExactMatch_single hfix.1 hfix.2.1 hw]
        rfl
      · obtain ⟨rfl, rfl⟩ := List.cons.inj h
        obtain ⟨huse, hfront⟩ := List.forall_mem_cons.mp hfront
        by_cases hlen : r.strVals.length = 1
        · obtain ⟨w, hw⟩ := List.length_eq_one_iff.mp hlen
          rw [requiresExactMatch_single huse.1 huse.2 hw]
          rfl
        · rw [requiresExactMatch_skip huse.1 huse.2 hlen]
          exact ih.mpr ⟨front, q, back, rfl, hfix, hfront⟩

end ExactMatch

/-- **`RequiresExactMatch` finds the value that the label must have** exactly if, when there is
one, only requirements that are of use to it come before the one that fixes the label. -/
theorem findsExactMatch_iff (label : List Char) (sel : List HeldRequirement) :
    FindsExactMatch label sel ↔ ((∃ r ∈ sel, r.Fixes label) → ∃ front r back,
      sel = front ++ r :: back ∧ r.Fixes label ∧ ∀ q ∈ front, q.key = label ∧ q.ForIn) := by
  constructor
  · intro h hfix
    exact requiresExactMatch_isSome.mp (h.complete hfix)
  · intro h
    refine ⟨fun v hv ls hmatchs => ?_, fun hfix => requiresExactMatch_isSome.mpr (h hfix)⟩
    obtain ⟨r, hr, hkey, hfor, hvals⟩ := requiresExactMatch_mem hv
    obtain ⟨w, hw, hmem⟩ := (HeldRequirement.matchs_isIn hfor).mp
      (selectorMatchs_iff.mp hmatchs r hr)
    rw [hvals, List.mem_singleton] at hmem
    rw [← hkey, ← hmem]
    exact HeldRequirement.labelValue_eq_some.mp hw

/-- `a` is sorted before `b`. -/
theorem requiresExactMatch_other :
    HeldRequirement.new ['a'] .equals [['1']] = .ok ⟨['a'], .equals, [['1']]⟩ ∧
    HeldRequirement.new ['b'] .equals [['2']] = .ok ⟨['b'], .equals, [['2']]⟩ ∧
    ¬ FindsExactMatch ['b'] [⟨['a'], .equals, [['1']]⟩, ⟨['b'], .equals, [['2']]⟩] := by
  refine ⟨by rfl, by rfl, fun h => ?_⟩
  have hfound := h.complete ⟨_, List.mem_cons_of_mem _ List.mem_cons_self, rfl,
    .inr (.inl rfl), rfl⟩
  revert hfound
  decide

end Inferx.Selector
