import Inferx.Lib.Map
import Inferx.Lib.Strs
import Inferx.Selector.Accepted
import Inferx.Selector.RoundTrip

/-!
# Labels

Labels are a map of text, read and written as `key=value` pairs with commas between
them. The keys and values that `New` lets through have neither separators nor blanks,
and so the text of a map is taken apart where it was put together.
-/

namespace Inferx.Selector

open Strs String

abbrev Labels := BTreeMap String String

/-- `IsValidLabelValue`. -/
def isValidLabelValue (val : String) : Except ParseError Unit :=
  if 63 < val.utf8ByteSize then
    .error (.common s!"must be no more than 63 characters, actual {val.utf8ByteSize}")
  else if isQualified val.toList then .ok ()
  else .error (.common s!"a valid label must be an empty string or consist of alphanumeric characters, '-', '_' or '.', and must start and end with an alphanumeric character actual:{val}")

/-- One pair of `New`. -/
def Labels.add (map : Labels) (label : String) : Except ParseError Labels :=
  match splitOnChar '=' label with
  | [k, v] => do
    validateLabelKey (trimWhite k).toList
    isValidLabelValue (trimWhite v)
    return map.insert (trimWhite k) (trimWhite v)
  | _ => .error (.common s!"invalid selector: {label}")

/-- `Labels::New`. -/
def Labels.new (selector : String) : Except ParseError Labels :=
  if selector = "" then .ok ∅ else (splitOnChar ',' selector).foldlM Labels.add ∅

/-- One pair of `String`. -/
def addPair (ret : String) (e : String × String) : String :=
  (if ret = "" then ret else ret ++ ",") ++ e.1 ++ "=" ++ e.2

/-- `Labels::String`. -/
def Labels.string (labels : Labels) : String := labels.toList.foldl addPair ""

/-! ## Texts without separators -/

/-- A character of keys and values. -/
def isLabelChar (c : Char) : Bool := isAlnum c || c == '-' || c == '_' || c == '.' || c == '/'

theorem isAlnum_toNat {c : Char} (h : isAlnum c = true) :
    (48 ≤ c.toNat ∧ c.toNat ≤ 57) ∨ (97 ≤ c.toNat ∧ c.toNat ≤ 122) ∨
      (65 ≤ c.toNat ∧ c.toNat ≤ 90) := by
  simp only [isAlnum, isAsciiDigit, isAsciiLower, Bool.or_eq_true, Bool.and_eq_true,
    decide_eq_true_eq, Char.le_def, UInt32.le_iff_toNat_le] at h
  rcases h with (h | h) | h
  · exact .inl h
  · exact .inr (.inl h)
  · exact .inr (.inr h)

theorem isLabelChar_facts {c : Char} (h : isLabelChar c = true) :
    c ≠ ',' ∧ c ≠ '=' ∧ isWhiteSpace c = false := by
  simp only [isLabelChar, Bool.or_eq_true, beq_iff_eq] at h
  rcases h with (((h | rfl) | rfl) | rfl) | rfl
  · have hn := isAlnum_toNat h
    refine ⟨?_, ?_, ?_⟩
    · rintro rfl
      revert hn
      decide
    · rintro rfl
      revert hn
      decide
    · simp only [isWhiteSpace, Bool.or_eq_false_iff, Bool.and_eq_false_iff, beq_eq_false_iff_ne,
        decide_eq_false_iff_not]
      omega
  all_goals decide

theorem isQualified_chars {s : List Char} (h : isQualified s = true) :
    ∀ c ∈ s, isLabelChar c = true := by
  intro c hc
  unfold isQualified isNameOf at h
  rw [Bool.and_eq_true, Bool.and_eq_true] at h
  have hall := List.all_eq_true.mp h.1.1 c hc
  unfold isLabelChar
  rw [hall, Bool.true_or]

theorem checkName_chars {s : List Char} (h : checkName s = .ok ()) :
    ∀ c ∈ s, isLabelChar c = true := by
  unfold checkName at h
  split at h
  next => cases h
  next =>
    split at h
    next => cases h
    next =>
      split at h
      next hq => exact isQualified_chars hq
      next => cases h

theorem mem_intercalate {sep c : Char} {l : List (List Char)} (h : c ∈ [sep].intercalate l) :
    c = sep ∨ ∃ p ∈ l, c ∈ p := by
  induction l with
  | nil => cases h
  | cons p l ih =>
    rcases l with _ | ⟨q, l⟩
    · exact .inr ⟨p, List.mem_cons_self, by simpa [List.intercalate] using h⟩
    · have hcons : [sep].intercalate (p :: q :: l) = p ++ sep :: [sep].intercalate (q :: l) := by
        simp [List.intercalate]
      rw [hcons, List.mem_append, List.mem_cons] at h
      rcases h with h | h | h
      · exact .inr ⟨p, List.mem_cons_self, h⟩
      · exact .inl h
      · exact (ih h).imp_right fun ⟨u, hu, hc⟩ => ⟨u, List.mem_cons_of_mem p hu, hc⟩

/-- A character of a text is the separator or in a piece. -/
theorem mem_splitOn (sep : Char) {c : Char} {s : List Char} (h : c ∈ s) :
    c = sep ∨ ∃ p ∈ s.splitOn sep, c ∈ p :=
  mem_intercalate ((List.intercalate_splitOn sep : _ = s).symm ▸ h)

theorem isSubdomain_chars {s : List Char} (h : isSubdomain s = true) :
    ∀ c ∈ s, isLabelChar c = true := by
  intro c hc
  rcases mem_splitOn '.' hc with rfl | ⟨p, hp, hc⟩
  · rfl
  · have hname := List.all_eq_true.mp h p hp
    unfold isNameOf at hname
    rw [Bool.and_eq_true, Bool.and_eq_true] at hname
    have hchar := List.all_eq_true.mp hname.1.1 c hc
    simp only [Bool.or_eq_true, beq_iff_eq] at hchar
    rcases hchar with (hchar | hchar) | rfl
    · simp [isLabelChar, isAlnum, hchar]
    · simp [isLabelChar, isAlnum, hchar]
    · rfl

theorem validateLabelKey_chars {k : List Char} (h : validateLabelKey k = .ok ()) :
    ∀ c ∈ k, isLabelChar c = true := by
  intro c hc
  unfold validateLabelKey isQualifiedName at h
  have hmem := mem_splitOn '/' hc
  split at h
  next name hs =>
    rw [hs] at hmem
    rcases hmem with rfl | ⟨p, hp, hc⟩
    · rfl
    · exact checkName_chars h c (List.mem_singleton.mp hp ▸ hc)
  next domain name hs =>
    rw [hs] at hmem
    split at h
    next => cases h
    next =>
      obtain ⟨⟨⟩, hdomain, h⟩ := Except.bind_eq_ok.mp h
      rcases hmem with rfl | ⟨p, hp, hc⟩
      · rfl
      · rcases List.mem_cons.mp hp with rfl | hp
        · unfold isDNS1123Subdomain at hdomain
          split at hdomain
          next => cases hdomain
          next =>
            split at hdomain
            next hsub => exact isSubdomain_chars hsub c hc
            next => cases hdomain
        · exact checkName_chars h c (List.mem_singleton.mp hp ▸ hc)
  next => cases h

theorem isValidLabelValue_chars {v : String} (h : isValidLabelValue v = .ok ()) :
    ∀ c ∈ v.toList, isLabelChar c = true := by
  unfold isValidLabelValue at h
  split at h
  next => cases h
  next =>
    split at h
    next hq => exact isQualified_chars hq
    next => cases h

/-- A key or a value. -/
def LabelText (s : String) : Prop := ∀ c ∈ s.toList, isLabelChar c = true

theorem LabelText.trim {s : String} (h : LabelText s) : trimWhite s = s := by
  have hwhite : ∀ c ∈ s.toList, isWhiteSpace c = false := fun c hc => (isLabelChar_facts (h c hc)).2.2
  have hdrop : ∀ {l : List Char}, (∀ c ∈ l, isWhiteSpace c = false) →
      l.dropWhile isWhiteSpace = l := by
    intro l hl
    rcases l with _ | ⟨c, l⟩
    · rfl
    · exact List.dropWhile_cons_of_neg (by rw [hl c List.mem_cons_self]; decide)
  unfold trimWhite trimWhere
  rw [hdrop hwhite, List.rdropWhile, hdrop fun c hc => hwhite c (List.mem_reverse.mp hc),
    List.reverse_reverse, ofList_toList]

theorem LabelText.split {k v : String} (hk : LabelText k) (hv : LabelText v) :
    splitOnChar '=' (k ++ "=" ++ v) = [k, v] := by
  have hne : ∀ {s : String}, LabelText s → '=' ∉ s.toList := fun hs hmem =>
    (isLabelChar_facts (hs _ hmem)).2.1 rfl
  have hcons : k ++ "=" ++ v = ofList (k.toList ++ '=' :: v.toList) := by
    rw [← toList_inj, toList_ofList, toList_append, toList_append]
    simp
  rw [hcons, splitOnChar_append (hne hk), ofList_toList, splitOnChar_self (hne hv)]

/-! ## Maps that are read back -/

/-- Every pair is one that `New` lets through. -/
def Labels.Valid (labels : Labels) : Prop :=
  ∀ k v : String, labels[k]? = some v → validateLabelKey k.toList = .ok () ∧ isValidLabelValue v = .ok ()

theorem Labels.add_valid {map map' : Labels} {label : String} (hmap : map.Valid)
    (h : map.add label = .ok map') : map'.Valid := by
  unfold Labels.add at h
  split at h
  next k v hsplit =>
    obtain ⟨⟨⟩, hk, h⟩ := Except.bind_eq_ok.mp h
    obtain ⟨⟨⟩, hv, h⟩ := Except.bind_eq_ok.mp h
    cases h
    intro k' v' hget
    rw [BTreeMap.get_insert] at hget
    split at hget
    next heq =>
      cases hget
      exact ⟨heq ▸ hk, hv⟩
    next => exact hmap k' v' hget
  next => cases h

theorem Labels.foldlM_valid {ls : List String} {map map' : Labels} (hmap : map.Valid)
    (h : ls.foldlM Labels.add map = .ok map') : map'.Valid := by
  induction ls generalizing map with
  | nil =>
    cases h
    exact hmap
  | cons l ls ih =>
    obtain ⟨map₁, hadd, h⟩ := Except.bind_eq_ok.mp h
    exact ih (Labels.add_valid hmap hadd) h

theorem Labels.valid_of_new {s : String} {labels : Labels} (h : Labels.new s = .ok labels) :
    labels.Valid := by
  have hempty : Labels.Valid ∅ := by
    intro k v hget
    rw [Std.ExtTreeMap.getElem?_empty] at hget
    cases hget
  unfold Labels.new at h
  split at h
  next =>
    cases h
    exact hempty
  next => exact Labels.foldlM_valid hempty h

/-- The text of a pair. -/
def pairText (e : String × String) : String := e.1 ++ "=" ++ e.2

/-- The pairs behind a pair. -/
def tailText : List (String × String) → List Char
  | [] => []
  | e :: es => ',' :: (pairText e).toList ++ tailText es

theorem foldl_addPair {es : List (String × String)} {ret : String} (hret : ret ≠ "") :
    es.foldl addPair ret = ofList (ret.toList ++ tailText es) := by
  induction es generalizing ret with
  | nil =>
    show ret = ofList (ret.toList ++ [])
    rw [List.append_nil, ofList_toList]
  | cons e es ih =>
    have hadd : addPair ret e = ofList (ret.toList ++ ',' :: (pairText e).toList) := by
      unfold addPair pairText
      rw [if_neg hret, ← toList_inj, toList_ofList]
      simp
    have hne : addPair ret e ≠ "" := by
      rw [hadd]
      intro h
      have := congrArg toList h
      rw [toList_ofList] at this
      simp at this
    rw [List.foldl_cons, ih hne, hadd, toList_ofList, tailText, List.append_assoc]

theorem split_tail {es : List (String × String)} {p : String} (hp : ',' ∉ p.toList)
    (h : ∀ e ∈ es, ',' ∉ (pairText e).toList) :
    splitOnChar ',' (ofList (p.toList ++ tailText es)) = p :: es.map pairText := by
  induction es generalizing p with
  | nil =>
    show splitOnChar ',' (ofList (p.toList ++ [])) = _
    rw [List.append_nil, ofList_toList, splitOnChar_self hp]
    rfl
  | cons e es ih =>
    have ih' := ih (h e List.mem_cons_self) fun e' he' => h e' (List.mem_cons_of_mem e he')
    show splitOnChar ',' (ofList (p.toList ++ ',' :: ((pairText e).toList ++ tailText es))) = _
    rw [splitOnChar_append hp, ih', List.map_cons]

theorem LabelText.not_comma {e : String × String} (hk : LabelText e.1) (hv : LabelText e.2) :
    ',' ∉ (pairText e).toList := by
  have hne : ∀ {s : String}, LabelText s → ',' ∉ s.toList := fun hs hmem =>
    (isLabelChar_facts (hs _ hmem)).1 rfl
  unfold pairText
  rw [toList_append, toList_append, List.mem_append, List.mem_append]
  rintro ((h | h) | h)
  · exact hne hk h
  · revert h
    decide
  · exact hne hv h

/-- The text of a map has its pairs between commas. -/
theorem split_pairs {es : List (String × String)} (hes : es ≠ [])
    (h : ∀ e ∈ es, LabelText e.1 ∧ LabelText e.2) :
    es.foldl addPair "" ≠ "" ∧ splitOnChar ',' (es.foldl addPair "") = es.map pairText := by
  rcases es with _ | ⟨e, es⟩
  · exact absurd rfl hes
  · have hfirst : addPair "" e = pairText e := by
      rw [← toList_inj]
      simp [addPair, pairText]
    have hne : pairText e ≠ "" := by
      intro h
      have := congrArg toList h
      unfold pairText at this
      simp at this
    have hcomma : ∀ e' ∈ e :: es, ',' ∉ (pairText e').toList := fun e' he' =>
      (h e' he').1.not_comma (h e' he').2
    rw [List.foldl_cons, hfirst, foldl_addPair hne]
    constructor
    · intro hempty
      have := congrArg toList hempty
      rw [toList_ofList] at this
      exact hne (toList_inj.mp (List.append_eq_nil_iff.mp this).1)
    · exact split_tail (hcomma e List.mem_cons_self) fun e' he' =>
        hcomma e' (List.mem_cons_of_mem e he')

theorem Labels.add_pair {map : Labels} {k v : String} (hk : validateLabelKey k.toList = .ok ())
    (hv : isValidLabelValue v = .ok ()) : map.add (pairText (k, v)) = .ok (map.insert k v) := by
  have hkt : LabelText k := validateLabelKey_chars hk
  have hvt : LabelText v := isValidLabelValue_chars hv
  unfold Labels.add pairText
  rw [hkt.split hvt]
  dsimp only
  rw [hkt.trim, hvt.trim, hk, hv]
  rfl

theorem Labels.foldlM_pairs {es : List (String × String)} (map : Labels)
    (h : ∀ e ∈ es, validateLabelKey e.1.toList = .ok () ∧ isValidLabelValue e.2 = .ok ()) :
    (es.map pairText).foldlM Labels.add map
      = .ok (es.foldl (fun m e => m.insert e.1 e.2) map) := by
  induction es generalizing map with
  | nil => rfl
  | cons e es ih =>
    obtain ⟨hk, hv⟩ := h e List.mem_cons_self
    rw [List.map_cons, List.foldlM_cons, Labels.add_pair hk hv, Except.ok_bind,
      ih _ fun e' he' => h e' (List.mem_cons_of_mem e he')]
    rfl

theorem foldl_insert_toList (labels : Labels) :
    labels.toList.foldl (fun m e => m.insert e.1 e.2) (∅ : Labels) = labels := by
  have hfold : labels.toList.foldl (fun m e => m.insert e.1 e.2) (∅ : Labels)
      = Std.ExtTreeMap.ofList labels.toList Ord.compare := by
    rw [Std.ExtTreeMap.ofList_eq_insertMany_empty, Std.ExtTreeMap.insertMany_list_eq_foldl]
  rw [hfold]
  refine Std.ExtTreeMap.ext_getElem? fun k => ?_
  rcases hget : labels[k]? with _ | v
  · refine Std.ExtTreeMap.getElem?_ofList_of_contains_eq_false ?_
    rw [← Bool.not_eq_true, List.contains_iff_mem]
    intro hmem
    obtain ⟨⟨k', v⟩, he, rfl⟩ := List.mem_map.mp hmem
    rw [BTreeMap.mem_toList.mp he] at hget
    cases hget
  · exact Std.ExtTreeMap.getElem?_ofList_of_mem Std.compare_self
      Std.ExtTreeMap.distinct_keys_toList (BTreeMap.mem_toList.mpr hget)

/-- **Labels that were read are read back.** -/
theorem Labels.new_string {labels : Labels} (h : labels.Valid) :
    Labels.new labels.string = .ok labels := by
  have hes : ∀ e ∈ labels.toList,
      validateLabelKey e.1.toList = .ok () ∧ isValidLabelValue e.2 = .ok () :=
    fun e he => h e.1 e.2 (BTreeMap.mem_toList.mp he)
  unfold Labels.new Labels.string
  rcases hl : labels.toList with _ | ⟨e, es⟩
  · rw [List.foldl_nil, if_pos rfl, ← foldl_insert_toList labels, hl]
    rfl
  · have hcons : labels.toList ≠ [] := hl ▸ List.cons_ne_nil e es
    obtain ⟨hne, hsplit⟩ := split_pairs hcons fun e he => ⟨validateLabelKey_chars (hes e he).1, isValidLabelValue_chars (hes e he).2⟩
    rw [← hl, if_neg hne, hsplit, Labels.foldlM_pairs ∅ hes, foldl_insert_toList]

/-! ## Matching -/

/-- The number of a requirement with one value. -/
def onlyNumber : List (List Char) → Option ℤ
  | [v] => parseI64 v
  | _ => none

/-- What a requirement asks of labels, with its values in the order `vals`. -/
def Requirement.matchs (r : Requirement) (vals : List (List Char)) (ls : Labels) :
    Except ParseError Bool :=
  let val := ls[ofList r.key]?
  match r.op with
  | .none => .error .panic
  | .isIn | .equals | .doubleEquals =>
    .ok (val.any fun v => vals.any fun str => decide (str = v.toList))
  | .notIn | .notEquals =>
    .ok (val.all fun v => !vals.any fun str => decide (str = v.toList))
  | .exist => .ok val.isSome
  | .doesNotExist => .ok (!val.isSome)
  | .greaterThan | .lessThan =>
    .ok <| match val.bind fun v => parseI64 v.toList, onlyNumber vals with
      | some lsValue, some rValue =>
        if r.op = .greaterThan then decide (rValue < lsValue) else decide (lsValue < rValue)
      | _, _ => false

/-- `Match`: every requirement, the values of each in the order that `order` gives. -/
def selectorMatch (order : Requirement → List (List Char)) (ls : Labels) :
    List Requirement → Except ParseError Bool
  | [] => .ok true
  | r :: reqs => do
    if ← r.matchs (order r) ls then selectorMatch order ls reqs else return false

theorem onlyNumber_perm {vals vals' : List (List Char)} (h : vals.Perm vals') :
    onlyNumber vals = onlyNumber vals' := by
  rcases vals with _ | ⟨v, _ | ⟨w, vals⟩⟩
  · rw [List.nil_perm.mp h]
  · rw [List.singleton_perm.mp h]
  · rcases vals' with _ | ⟨v', _ | ⟨w', vals'⟩⟩
    · rfl
    · exact absurd h.length_eq (by simp)
    · rfl

/-- The order of the values does not matter. -/
theorem Requirement.matchs_perm (r : Requirement) {vals vals' : List (List Char)}
    (h : vals.Perm vals') (ls : Labels) : r.matchs vals ls = r.matchs vals' ls := by
  have hany : ∀ v : String, (vals.any fun str => decide (str = v.toList))
      = vals'.any fun str => decide (str = v.toList) := fun v => h.any_eq
  unfold Requirement.matchs
  simp only [hany, onlyNumber_perm h]

theorem selectorMatch_perm {order order' : Requirement → List (List Char)}
    {reqs : List Requirement} (h : ∀ r ∈ reqs, (order r).Perm (order' r)) (ls : Labels) :
    selectorMatch order ls reqs = selectorMatch order' ls reqs := by
  induction reqs with
  | nil => rfl
  | cons r reqs ih =>
    unfold selectorMatch
    rw [r.matchs_perm (h r List.mem_cons_self), ih fun q hq => h q (List.mem_cons_of_mem r hq)]

/-! ## Printing and reading back -/

/-- **Selectors and labels are read back from their text**: the selector up to the order in
which its requirements hold their values, which no match depends on. -/
theorem string_reads_back :
    (∀ s sel, parse s = .ok sel → parse (selectorString sel) = .ok sel ∧
      ∀ (order order' : Requirement → List (List Char)) (ls : Labels),
        (∀ r ∈ sel, (order r).Perm r.values ∧ (order' r).Perm r.values) →
        selectorMatch order' ls sel = selectorMatch order ls sel) ∧
    ∀ (s : String) (labels : Labels), Labels.new s = .ok labels →
      Labels.new labels.string = .ok labels := by
  constructor
  · intro s sel h
    constructor
    · rw [parse_selectorString (parse_readable h), parse_sorted h]
    · intro order order' ls horder
      exact selectorMatch_perm (fun r hr => (horder r hr).2.trans (horder r hr).1.symm) ls
  · intro s labels h
    exact Labels.new_string (Labels.valid_of_new h)

theorem string_reads_back_run :
    (∃ sel, parse "in notin (,x)".toList = .ok sel ∧ parse (selectorString sel) = .ok sel ∧
      ∀ ls : Labels, selectorMatch (fun r => r.values.reverse) ls sel
        = selectorMatch Requirement.values ls sel) ∧
    ∃ labels, Labels.new "a=b" = .ok labels ∧ Labels.new labels.string = .ok labels := by
  have hloop : parseLoop ((scan "in notin (,x)".toList).length + 1) (scan "in notin (,x)".toList)
      = .ok [⟨['i', 'n'], .notIn, {['x'], []}⟩] := by rfl
  have hparse : parse "in notin (,x)".toList = .ok [⟨['i', 'n'], .notIn, {['x'], []}⟩] := by
    show (parseLoop _ _ >>= _) = _
    rw [hloop]
    exact congrArg Except.ok (List.mergeSort_singleton _)
  have hlabels : Labels.new "a=b" = .ok ((∅ : Labels).insert "a" "b") := by
    have hsplit : splitOnChar ',' "a=b" = [pairText ("a", "b")] := by decide +kernel
    unfold Labels.new
    rw [if_neg (by decide), hsplit, List.foldlM_cons,
      Labels.add_pair (by decide +kernel) (by decide +kernel)]
    rfl
  refine ⟨⟨_, hparse, (string_reads_back.1 _ _ hparse).1, fun ls => ?_⟩, _, hlabels,
    string_reads_back.2 _ _ hlabels⟩
  exact (string_reads_back.1 _ _ hparse).2 _ _ ls fun r _ => ⟨.refl _, r.values.reverse_perm⟩

end Inferx.Selector
