import Inferx.Etcd.Paging

/-!
# When following the tokens lists everything

A page is right when the first of its reads that selects anything fills the page or sees
all that is left (`GoodPage`). The pages together are right when each is, and when each
token leads to the keys that are still to come (`Works`): the key it stands for lies a
little behind the last one, and it loses a slash if that key goes on with one behind the
prefix.
-/

namespace Inferx.Etcd

open Metastore Strs String

variable {V : Type}

/-- What a predicate selects. -/
def selected (pred : DataObject V → Bool) (l : List (Stored V)) : List (Stored V) :=
  l.filter fun p => pred p.2

/-- The sizes of the reads for one page. -/
def sizes (limit : ℕ) : ℕ → ℕ
  | 0 => limit
  | n + 1 => grow (sizes limit n)

/-- A read that selects nothing although there are more keys. -/
def Idle (pred : DataObject V → Bool) (range : List (Stored V)) (size : ℕ) : Prop :=
  size < range.length ∧ selected pred (range.take size) = []

/-- The first read that is not idle sees all keys or selects enough for a page. -/
def GoodPage (pred : DataObject V → Bool) (limit : ℕ) (range : List (Stored V)) : Prop :=
  ∃ n, (∀ i < n, Idle pred range (sizes limit i)) ∧ (range.length ≤ sizes limit n ∨
    limit ≤ (selected pred (range.take (sizes limit n))).length)

/-- The page that a range should give: all that is selected if this is less than a page, else it
ends with the object that fills it. -/
def PageOf (pred : DataObject V → Bool) (limit : ℕ) (range : List (Stored V)) (out : Fetched V) :
    Prop :=
  ((selected pred range).length < limit ∧ out.objs = selected pred range ∧ out.hasMore = false) ∨
    ∃ a x b, range = a ++ x :: b ∧ pred x.2 = true ∧ (selected pred a).length + 1 = limit ∧
      out.objs = selected pred a ++ [x] ∧ out.lastKey = x.1 ∧ out.hasMore = !b.isEmpty

section Read

variable {pred : DataObject V → Bool} {limit : ℕ} {range kvs v a b : List (Stored V)}
  {x : Stored V} {last : String} {more : Bool}

theorem selected_nil : selected pred [] = [] := rfl

theorem selected_append : selected pred (a ++ b) = selected pred a ++ selected pred b :=
  List.filter_append ..

theorem selected_cons_of_pos (h : pred x.2 = true) :
    selected pred (x :: b) = x :: selected pred b :=
  List.filter_cons_of_pos h

theorem selected_cons_of_neg (h : ¬ pred x.2 = true) : selected pred (x :: b) = selected pred b :=
  List.filter_cons_of_neg h

/-- The list up to an element that is selected, with so many selected before it. -/
theorem exists_split {n : ℕ} (h : n < (selected pred kvs).length) :
    ∃ a x b, kvs = a ++ x :: b ∧ pred x.2 = true ∧ (selected pred a).length = n := by
  induction kvs generalizing n with
  | nil => exact absurd h (Nat.not_lt_zero _)
  | cons y kvs ih =>
    by_cases hy : pred y.2 = true
    · rw [selected_cons_of_pos hy, List.length_cons] at h
      cases n with
      | zero => exact ⟨[], y, kvs, rfl, hy, rfl⟩
      | succ n =>
        obtain ⟨a, x, b, rfl, hx, hlen⟩ := ih (Nat.lt_of_succ_lt_succ h)
        refine ⟨y :: a, x, b, rfl, hx, ?_⟩
        rw [selected_cons_of_pos hy, List.length_cons, hlen]
    · rw [selected_cons_of_neg hy] at h
      obtain ⟨a, x, b, rfl, hx, hlen⟩ := ih h
      refine ⟨y :: a, x, b, rfl, hx, ?_⟩
      rw [selected_cons_of_neg hy, hlen]

/-- There is only one such element. -/
theorem split_unique {a' b' : List (Stored V)} {x' : Stored V} (h : a ++ x :: b = a' ++ x' :: b')
    (hx : pred x.2 = true) (hx' : pred x'.2 = true)
    (hlen : (selected pred a).length = (selected pred a').length) : a = a' ∧ x = x' ∧ b = b' := by
  induction a generalizing a' with
  | nil =>
    cases a' with
    | nil =>
      obtain ⟨rfl, rfl⟩ := List.cons.inj h
      exact ⟨rfl, rfl, rfl⟩
    | cons y a' =>
      obtain ⟨rfl, -⟩ := List.cons.inj h
      rw [selected_cons_of_pos hx] at hlen
      cases hlen
  | cons y a ih =>
    cases a' with
    | nil =>
      obtain ⟨rfl, -⟩ := List.cons.inj h
      rw [selected_cons_of_pos hx'] at hlen
      cases hlen
    | cons y' a' =>
      obtain ⟨rfl, htail⟩ := List.cons.inj h
      have hlen' : (selected pred a).length = (selected pred a').length := by
        by_cases hy : pred y.2 = true
        · rw [selected_cons_of_pos hy, selected_cons_of_pos hy] at hlen
          exact Nat.succ_inj.mp hlen
        · rw [selected_cons_of_neg hy, selected_cons_of_neg hy] at hlen
          exact hlen
      obtain ⟨rfl, hrest⟩ := ih htail hlen'
      exact ⟨rfl, hrest⟩

/-- Too few objects for the page: all keys are looked at. -/
theorem readKvs_short (last : String) (more : Bool)
    (h : v.length + (selected pred kvs).length < limit) :
    ∃ k, readKvs pred limit true kvs v last more = (v ++ selected pred kvs, k, more) := by
  induction kvs generalizing v last with
  | nil => exact ⟨last, by rw [selected_nil, List.append_nil]; rfl⟩
  | cons y kvs ih =>
    have hroom : ¬ (true && decide (limit ≤ v.length)) = true := by
      simpa using Nat.lt_of_le_of_lt (Nat.le_add_right _ _) h
    unfold readKvs
    rw [if_neg hroom]
    by_cases hy : pred y.2 = true
    · rw [selected_cons_of_pos hy] at h ⊢
      rw [if_pos hy]
      have hlen : (v ++ [y]).length + (selected pred kvs).length < limit := by
        rw [List.length_append, List.length_singleton]
        rw [List.length_cons] at h
        omega
      obtain ⟨k, hk⟩ := ih y.1 hlen
      exact ⟨k, by rw [hk, List.append_assoc, List.singleton_append]⟩
    · rw [selected_cons_of_neg hy] at h ⊢
      rw [if_neg hy]
      exact ih y.1 h

/-- The page is filled: the keys behind are not looked at. -/
theorem readKvs_full (hx : pred x.2 = true) (h : v.length + (selected pred a).length + 1 = limit) :
    readKvs pred limit true (a ++ x :: b) v last more =
      (v ++ selected pred a ++ [x], x.1, if b.isEmpty then more else true) := by
  induction a generalizing v last with
  | nil =>
    have hlen : v.length + 1 = limit := h
    have hroom : ¬ (true && decide (limit ≤ v.length)) = true := by
      simp only [Bool.true_and, decide_eq_true_eq]
      omega
    rw [List.nil_append]
    unfold readKvs
    rw [if_neg hroom, if_pos hx, selected_nil, List.append_nil]
    cases b with
    | nil => rfl
    | cons y b =>
      have hfull : (true && decide (limit ≤ (v ++ [x]).length)) = true := by
        simp only [Bool.true_and, decide_eq_true_eq, List.length_append, List.length_singleton]
        omega
      unfold readKvs
      rw [if_pos hfull]
      rfl
  | cons y a ih =>
    have hroom : ¬ (true && decide (limit ≤ v.length)) = true := by
      simp only [Bool.true_and, decide_eq_true_eq]
      omega
    rw [List.cons_append]
    unfold readKvs
    rw [if_neg hroom]
    by_cases hy : pred y.2 = true
    · rw [selected_cons_of_pos hy, List.length_cons] at h
      have hlen : (v ++ [y]).length + (selected pred a).length + 1 = limit := by
        rw [List.length_append, List.length_singleton]
        omega
      rw [if_pos hy, ih hlen, selected_cons_of_pos hy]
      simp
    · rw [selected_cons_of_neg hy] at h
      rw [if_neg hy, ih h, selected_cons_of_neg hy]

/-- What is in the page stays in it. -/
theorem prefix_readKvs (paging : Bool) : v <+: (readKvs pred limit paging kvs v last more).1 := by
  induction kvs generalizing v last more with
  | nil => exact List.prefix_rfl
  | cons y kvs ih =>
    unfold readKvs
    split
    next => exact List.prefix_rfl
    next =>
      refine List.IsPrefix.trans ?_ ih
      split
      next => exact List.prefix_append ..
      next => exact List.prefix_rfl

/-- The first object that is selected is put into a page with room. -/
theorem concat_prefix_readKvs (hx : pred x.2 = true) (ha : selected pred a = [])
    (h : v.length < limit) : v ++ [x] <+:
    (readKvs pred limit true (a ++ x :: b) v last more).1 := by
  induction a generalizing last with
  | nil =>
    rw [List.nil_append]
    unfold readKvs
    rw [if_neg (by simpa using h), if_pos hx]
    exact prefix_readKvs true
  | cons y a ih =>
    have hy : ¬ pred y.2 = true := by
      intro hy
      rw [selected_cons_of_pos hy] at ha
      cases ha
    rw [selected_cons_of_neg hy] at ha
    rw [List.cons_append]
    unfold readKvs
    rw [if_neg (by simpa using h), if_neg hy]
    exact ih ha

end Read

/-! ## The loop -/

section Loop

variable {pred : DataObject V → Bool} {limit : ℕ} {range v a b : List (Stored V)} {x : Stored V}
  {last : String} {out : Fetched V} {fuel size : ℕ}

theorem le_grow (size : ℕ) : size ≤ grow size := by
  unfold grow
  split
  · omega
  · exact Nat.le_refl _

theorem le_sizes (limit n : ℕ) : limit ≤ sizes limit n := by
  induction n with
  | zero => exact Nat.le_refl _
  | succ n ih => exact ih.trans (le_grow _)

/-- One read with room in the page. -/
theorem fetchLoop_succ (hsize : 0 < size) :
    fetchLoop range pred limit true (fuel + 1) size v last =
      let r := readKvs pred limit true (range.take size) v last (decide (size < range.length))
      if r.2.2 = false ∨ limit ≤ r.1.length then some (.ok ⟨r.1, r.2.1, r.2.2, range.length⟩)
      else fetchLoop range pred limit true fuel (grow size) r.1 r.2.1 := by
  have hanswer : answer range size
    = ⟨range.take size, decide (size < range.length), range.length⟩ := by
    unfold answer
    rw [if_neg hsize.ne', bne_iff_ne.mpr hsize.ne', Bool.true_and]
  have hsome : ¬ ((range.take size).isEmpty && decide (size < range.length)) = true := by
    rw [Bool.and_eq_true, List.isEmpty_iff, List.take_eq_nil_iff, decide_eq_true_eq]
    rintro ⟨h | rfl, hlt⟩
    · exact hsize.ne' h
    · exact Nat.not_lt_zero _ hlt
  conv_lhs => unfold fetchLoop
  rw [if_pos rfl, hanswer]
  dsimp only
  rw [if_neg hsome]
  generalize readKvs pred limit true (range.take size) v last (decide (size < range.length)) = r
  rcases hmore : r.2.2
  · simp
  · simp

/-- What the first read puts into the page stays in it. -/
theorem prefix_fetchLoop (hsize : 0 < size)
    (h : fetchLoop range pred limit true fuel size v last = some (.ok out)) :
    (readKvs pred limit true (range.take size) v last
      (decide (size < range.length))).1 <+: out.objs := by
  induction fuel generalizing size v last with
  | zero => cases h
  | succ fuel ih =>
    rw [fetchLoop_succ hsize] at h
    dsimp only at h
    split at h
    next =>
      obtain rfl := Except.ok.inj (Option.some.inj h)
      exact List.prefix_rfl
    next => exact (prefix_readKvs true).trans (ih (hsize.trans_le (le_grow size)) h)

/-- Reading again selects again what is in the page. -/
theorem not_nodup_fetchLoop (hsize : 0 < size) (hrange : range.take size = a ++ x :: b)
    (hx : pred x.2 = true) (ha : selected pred a = []) (hmem : x ∈ v) (hroom : v.length < limit)
    (h : fetchLoop range pred limit true fuel size v last = some (.ok out)) : ¬ out.objs.Nodup := by
  intro hnodup
  have hprefix := prefix_fetchLoop hsize h
  rw [hrange] at hprefix
  have htwice : v ++ [x] <+: out.objs := (concat_prefix_readKvs hx ha hroom).trans hprefix
  have hv := (List.nodup_append.mp (hnodup.sublist htwice.sublist)).2.2 x hmem x
    (List.mem_singleton_self x)
  exact hv rfl

/-- A read that fills the page. -/
theorem fetchLoop_full {n : ℕ} (fuel : ℕ) (last : String) (hlimit : 0 < limit)
    (hfull : limit ≤ (selected pred (range.take (sizes limit n))).length) :
    ∃ out, PageOf pred limit range out ∧
      fetchLoop range pred limit true (fuel + 1) (sizes limit n) [] last = some (.ok out) := by
  have hsize : 0 < sizes limit n := hlimit.trans_le (le_sizes limit n)
  have hlast : limit - 1 < (selected pred (range.take (sizes limit n))).length := by omega
  obtain ⟨a, x, b, htake, hx, hlen⟩ := exists_split hlast
  have hlen' : (selected pred a).length + 1 = limit := by omega
  have hrange : range = a ++ x :: (b ++ range.drop (sizes limit n)) := by
    conv_lhs => rw [← List.take_append_drop (sizes limit n) range, htake]
    simp
  have hread : readKvs pred limit true (range.take (sizes limit n)) [] last
      (decide (sizes limit n < range.length)) =
        ([] ++ selected pred a ++ [x], x.1,
          if b.isEmpty then decide (sizes limit n < range.length) else true) := by
    rw [htake]
    exact readKvs_full hx (by simpa using hlen')
  have hmore : (if b.isEmpty then decide (sizes limit n < range.length) else true) =
      !(b ++ range.drop (sizes limit n)).isEmpty := by
    cases b with
    | nil =>
      rw [List.isEmpty_nil, if_pos rfl, List.nil_append, Bool.eq_iff_iff, decide_eq_true_eq,
        Bool.not_eq_true', List.isEmpty_eq_false_iff, Ne, List.drop_eq_nil_iff, Nat.not_le]
    | cons y b => rfl
  refine ⟨⟨selected pred a ++ [x], x.1, !(b ++ range.drop (sizes limit n)).isEmpty, range.length⟩,
    Or.inr ⟨a, x, _, hrange, hx, hlen', rfl, rfl, rfl⟩, ?_⟩
  rw [fetchLoop_succ hsize, hread, hmore, List.nil_append]
  dsimp only
  rw [if_pos (Or.inr (by rw [List.length_append, List.length_singleton, hlen']))]

/-- A read that sees all and selects less than a page. -/
theorem fetchLoop_complete {n : ℕ} (fuel : ℕ) (last : String) (hlimit : 0 < limit)
    (hall : range.length ≤ sizes limit n)
    (hfew : (selected pred range).length < limit) :
    ∃ out, PageOf pred limit range out ∧
      fetchLoop range pred limit true (fuel + 1) (sizes limit n) [] last = some (.ok out) := by
  have hsize : 0 < sizes limit n := hlimit.trans_le (le_sizes limit n)
  have hmore : decide (sizes limit n < range.length) = false := decide_eq_false
    (Nat.not_lt.mpr hall)
  obtain ⟨k, hread⟩ : ∃ k, readKvs pred limit true range [] last false =
      ([] ++ selected pred range, k, false) := readKvs_short last false (by simpa using hfew)
  refine ⟨⟨selected pred range, k, false, range.length⟩, Or.inl ⟨hfew, rfl, rfl⟩, ?_⟩
  rw [fetchLoop_succ hsize, List.take_of_length_le hall, hmore, hread, List.nil_append]
  dsimp only
  rw [if_pos (Or.inl rfl)]

/-- **A good page.** The loop ends with it. -/
theorem fetchLoop_of_good (hlimit : 0 < limit) (h : GoodPage pred limit range) :
    ∃ fuel out, PageOf pred limit range out ∧
      fetchLoop range pred limit true fuel limit [] "" = some (.ok out) := by
  obtain ⟨n, hidle, hgood⟩ := h
  have hrun : ∀ k i last, i + k = n → ∃ fuel out, PageOf pred limit range out ∧
      fetchLoop range pred limit true fuel (sizes limit i) [] last = some (.ok out) := by
    intro k
    induction k with
    | zero =>
      intro i last hi
      obtain rfl : i = n := hi
      refine ⟨1, ?_⟩
      by_cases hfull : limit ≤ (selected pred (range.take (sizes limit i))).length
      · exact fetchLoop_full 0 last hlimit hfull
      · have hall := hgood.resolve_right hfull
        rw [List.take_of_length_le hall] at hfull
        exact fetchLoop_complete 0 last hlimit hall (Nat.not_le.mp hfull)
    | succ k ih =>
      intro i last hi
      obtain ⟨hmore, hnone⟩ := hidle i (by omega)
      have hsize : 0 < sizes limit i := hlimit.trans_le (le_sizes limit i)
      have hfew : ([] : List (Stored V)).length +
          (selected pred (range.take (sizes limit i))).length < limit := by
        rw [hnone]
        exact hlimit
      obtain ⟨key, hread⟩ := readKvs_short last (decide (sizes limit i < range.length)) hfew
      obtain ⟨fuel, out, hpage, hloop⟩ := ih (i + 1) key (by omega)
      refine ⟨fuel + 1, out, hpage, ?_⟩
      rw [fetchLoop_succ hsize, hread, hnone, decide_eq_true hmore]
      dsimp only
      rw [if_neg (by simpa using hlimit.ne')]
      exact hloop
  exact hrun n 0 "" (Nat.zero_add n)

/-- **Any page.** If the loop ends, the page is a good one, or an object is in it twice. -/
theorem good_or_twice (hlimit : 0 < limit)
    (h : fetchLoop range pred limit true fuel limit [] "" = some (.ok out))
    (hnodup : out.objs.Nodup) :
    GoodPage pred limit range ∧ PageOf pred limit range out := by
  have hrun : ∀ fuel n last, (∀ i < n, Idle pred range (sizes limit i)) →
      fetchLoop range pred limit true fuel (sizes limit n) [] last = some (.ok out) →
      GoodPage pred limit range ∧ PageOf pred limit range out := by
    intro fuel
    induction fuel with
    | zero => exact fun n last _ h => nomatch h
    | succ fuel ih =>
      intro n last hidle h
      have hsize : 0 < sizes limit n := hlimit.trans_le (le_sizes limit n)
      by_cases hfull : limit ≤ (selected pred (range.take (sizes limit n))).length
      · obtain ⟨out', hpage, hloop⟩ := fetchLoop_full fuel last hlimit hfull
        obtain rfl := Except.ok.inj (Option.some.inj (h.symm.trans hloop))
        exact ⟨⟨n, hidle, Or.inr hfull⟩, hpage⟩
      · by_cases hmore : sizes limit n < range.length
        · have hfew : ([] : List (Stored V)).length +
              (selected pred (range.take (sizes limit n))).length < limit := by
            rw [List.length_nil, Nat.zero_add]
            exact Nat.not_le.mp hfull
          obtain ⟨key, hread⟩ := readKvs_short last
            (decide (sizes limit n < range.length)) hfew
          rw [fetchLoop_succ hsize, hread, List.nil_append, decide_eq_true hmore] at h
          dsimp only at h
          rw [if_neg (by simpa using Nat.not_le.mp hfull)] at h
          by_cases hnone : selected pred (range.take (sizes limit n)) = []
          · rw [hnone] at h
            refine ih (n + 1) key (fun i hi => ?_) h
            rcases Nat.lt_succ_iff_lt_or_eq.mp hi with hi | rfl
            · exact hidle i hi
            · exact ⟨hmore, hnone⟩
          · -- the objects of this read are selected again by the next one
            obtain ⟨a, x, b, htake, hx, ha⟩ := exists_split (List.length_pos_iff.mpr hnone)
            have ha' : selected pred a = [] := List.eq_nil_of_length_eq_zero ha
            have hmem : x ∈ selected pred (range.take (sizes limit n)) := by
              rw [htake]
              exact List.mem_filter.mpr ⟨List.mem_append_right _ List.mem_cons_self, hx⟩
            obtain ⟨c, hc⟩ := List.take_prefix_take_left (l := range) (le_grow (sizes limit n))
            rw [htake, List.append_assoc, List.cons_append] at hc
            exact absurd hnodup (not_nodup_fetchLoop
              (hsize.trans_le (le_grow _)) hc.symm hx ha' hmem
              (Nat.not_le.mp hfull) h)
        · have hall := Nat.not_lt.mp hmore
          have hfew : (selected pred range).length < limit := by
            rw [List.take_of_length_le hall] at hfull
            exact Nat.not_le.mp hfull
          obtain ⟨out', hpage, hloop⟩ := fetchLoop_complete fuel last hlimit hall hfew
          obtain rfl := Except.ok.inj (Option.some.inj (h.symm.trans hloop))
          exact ⟨⟨n, hidle, Or.inl hall⟩, hpage⟩
  exact hrun fuel 0 "" (fun i hi => absurd hi (Nat.not_lt_zero i)) h

end Loop

/-! ## The pages -/

/-- The key that the page behind a key starts from. -/
def tokenStart (keyPrefix lastKey : String) : Option String :=
  (afterPrefix keyPrefix (lastKey ++ "\x000")).bind fun nextKey =>
    if nextKey = "" then none
    else some (keyPrefix ++ ofList
      ((if ['/'].isPrefixOf nextKey.toList then nextKey.toList else '/' :: nextKey.toList).drop 1))

/-- The pages from a key on. -/
inductive PagesFrom (s : EtcdStore V) (keyPrefix : String)
    (pred : DataObject V → Bool) (limit : ℕ) :
    String → List (List (Stored V)) → Prop where
  | last {start fuel out} :
      fetchLoop (s.range keyPrefix start) pred limit true fuel limit [] "" = some (.ok out) →
      out.hasMore = false → PagesFrom s keyPrefix pred limit start [out.objs]
  | next {start fuel out start' ps} :
      fetchLoop (s.range keyPrefix start) pred limit true fuel limit [] "" = some (.ok out) →
      out.hasMore = true → tokenStart keyPrefix out.lastKey = some start' →
      PagesFrom s keyPrefix pred limit start' ps →
      PagesFrom s keyPrefix pred limit start (out.objs :: ps)

/-- The pages from a key on list everything: each is good, and the one behind it starts so that it
still has what is to come. -/
inductive Works (s : EtcdStore V) (keyPrefix : String) (pred : DataObject V → Bool) (limit : ℕ) :
    String → Prop where
  /-- less than a page is left -/
  | few {start} : GoodPage pred limit (s.range keyPrefix start) →
      (selected pred (s.range keyPrefix start)).length < limit → Works s keyPrefix pred limit start
  /-- the page ends with the last key -/
  | full {start a x} : GoodPage pred limit (s.range keyPrefix start) →
      s.range keyPrefix start = a ++ [x] → pred x.2 = true → (selected pred a).length + 1 = limit →
      Works s keyPrefix pred limit start
  /-- there are more keys -/
  | more {start a x b start'} : GoodPage pred limit (s.range keyPrefix start) →
      s.range keyPrefix start = a ++ x :: b → b ≠ [] → pred x.2 = true →
      (selected pred a).length + 1 = limit → tokenStart keyPrefix x.1 = some start' →
      selected pred b = selected pred (s.range keyPrefix start') →
      Works s keyPrefix pred limit start' → Works s keyPrefix pred limit start

section Pages

variable {s : EtcdStore V} {keyPrefix start : String} {pred : DataObject V → Bool} {limit : ℕ}
  {a b : List (Stored V)} {x : Stored V} {ps : List (List (Stored V))}

theorem ordered_range (s : EtcdStore V) (keyPrefix start : String) :
    (s.range keyPrefix start).Pairwise fun p q => p.1 < q.1 :=
  (Std.ExtTreeMap.ordered_keys_toList.imp fun h => compare_lt_iff_lt.mp h).filter _

theorem nodup_selected (s : EtcdStore V) (keyPrefix start : String) :
    (selected pred (s.range keyPrefix start)).Nodup :=
  ((ordered_range s keyPrefix start).imp fun h heq => absurd (heq ▸ h) (lt_irrefl _)).filter _

theorem mem_range {p : Stored V} : p ∈ s.range keyPrefix start ↔
    p ∈ s.contents.toList ∧ start ≤ p.1 ∧ p.1 < getPrefixRangeEnd keyPrefix := by
  unfold EtcdStore.range
  rw [List.mem_filter, Bool.and_eq_true, decide_eq_true_iff, decide_eq_true_iff]

theorem mem_selected {l : List (Stored V)} {p : Stored V} :
    p ∈ selected pred l ↔ p ∈ l ∧ pred p.2 = true := List.mem_filter

theorem head_le {l : List (Stored V)} {y p : Stored V} (h : l.Pairwise fun p q => p.1 < q.1)
    (hy : l.head? = some y) (hp : p ∈ l) : y.1 ≤ p.1 := by
  cases l with
  | nil => cases hy
  | cons z l =>
    obtain rfl := Option.some.inj hy
    rcases List.mem_cons.mp hp with rfl | hmem
    · exact le_rfl
    · exact ((List.pairwise_cons.mp h).1 p hmem).le

/-- What is behind an element is what is greater. -/
theorem behind_eq (h : (a ++ x :: b).Pairwise fun p q => p.1 < q.1) :
    b = (a ++ x :: b).filter fun p => decide (x.1 < p.1) := by
  obtain ⟨-, hxb, hcross⟩ := List.pairwise_append.mp h
  have ha : a.filter (fun p => decide (x.1 < p.1)) = [] :=
    List.filter_eq_nil_iff.mpr fun p hp hlt =>
      lt_asymm (hcross p hp x List.mem_cons_self) (of_decide_eq_true hlt)
  have hb : b.filter (fun p => decide (x.1 < p.1)) = b :=
    List.filter_eq_self.mpr fun p hp => decide_eq_true ((List.pairwise_cons.mp hxb).1 p hp)
  rw [List.filter_append, ha, List.nil_append,
    List.filter_cons_of_neg (by rw [decide_eq_true_iff]; exact lt_irrefl _), hb]

/-- Two ends of the list that begin with the same object are the same. -/
theorem selected_eq_of_head {start' : String} (hrange : s.range keyPrefix start = a ++ x :: b)
    (hhead : (selected pred b).head? = (selected pred (s.range keyPrefix start')).head?) :
    selected pred b = selected pred (s.range keyPrefix start') := by
  rcases hy : (selected pred (s.range keyPrefix start')).head? with _ | y
  · rw [hy] at hhead
    rw [List.head?_eq_none_iff.mp hhead, List.head?_eq_none_iff.mp hy]
  · rw [hy] at hhead
    have hordered := ordered_range s keyPrefix start
    have hb : selected pred b = selected pred ((s.range keyPrefix start).filter
        fun p => decide (x.1 < p.1)) := by
      rw [hrange] at hordered ⊢
      rw [← behind_eq hordered]
    have hbsorted : (selected pred b).Pairwise fun p q => p.1 < q.1 := by
      rw [hb]
      exact (hordered.filter _).filter _
    have hsorted : (selected pred (s.range keyPrefix start')).Pairwise fun p q => p.1 < q.1 :=
      (ordered_range s keyPrefix start').filter _
    have hyb : y ∈ selected pred b := List.mem_of_mem_head? hhead
    have hy' : y ∈ selected pred (s.range keyPrefix start') := List.mem_of_mem_head? hy
    obtain ⟨hyR, -⟩ := mem_selected.mp (hb ▸ hyb)
    obtain ⟨hyR, hxy⟩ := List.mem_filter.mp hyR
    obtain ⟨-, hstart, -⟩ := mem_range.mp hyR
    obtain ⟨-, hstart', -⟩ := mem_range.mp (mem_selected.mp hy').1
    -- both are what is selected from `y` on
    have hmem : ∀ p, p ∈ selected pred b ↔ p ∈ selected pred (s.range keyPrefix start') := by
      intro p
      constructor
      · intro hp
        have hle := head_le hbsorted hhead hp
        rw [hb, mem_selected, List.mem_filter, mem_range] at hp
        exact mem_selected.mpr ⟨mem_range.mpr ⟨hp.1.1.1, hstart'.trans hle, hp.1.1.2.2⟩, hp.2⟩
      · intro hp
        have hle := head_le hsorted hy hp
        rw [mem_selected, mem_range] at hp
        rw [hb, mem_selected, List.mem_filter, mem_range, decide_eq_true_iff]
        exact ⟨⟨⟨hp.1.1, hstart.trans hle, hp.1.2.2⟩, (of_decide_eq_true hxy).trans_le hle⟩, hp.2⟩
    rw [hb] at hmem ⊢
    unfold selected EtcdStore.range at hmem ⊢
    rw [List.filter_filter, List.filter_filter, List.filter_filter] at hmem ⊢
    refine List.filter_congr fun p hp => Bool.eq_iff_iff.mpr ?_
    have h := hmem p
    rw [List.mem_filter, List.mem_filter, and_iff_right hp, and_iff_right hp] at h
    exact h

/-- Pages list from the first object on that is selected. -/
theorem head_flatten (hlimit : 0 < limit) (h : PagesFrom s keyPrefix pred limit start ps)
    (hnodup : ps.flatten.Nodup) :
    ps.flatten.head? = (selected pred (s.range keyPrefix start)).head? := by
  cases h with
  | last hloop hmore =>
    rw [List.flatten_cons, List.flatten_nil, List.append_nil] at hnodup ⊢
    obtain ⟨-, ⟨-, hobjs, -⟩ | ⟨a, x, b, hrange, hx, -, hobjs, -⟩⟩ :=
      good_or_twice hlimit hloop hnodup
    · rw [hobjs]
    · rw [hobjs, hrange, selected_append, selected_cons_of_pos hx]
      cases selected pred a with
      | nil => rfl
      | cons y l => rfl
  | next hloop hmore =>
    rw [List.flatten_cons] at hnodup ⊢
    obtain ⟨-, ⟨-, -, hfalse⟩ | ⟨a, x, b, hrange, hx, -, hobjs, -⟩⟩ :=
      good_or_twice hlimit hloop (List.nodup_append.mp hnodup).1
    · cases hmore.symm.trans hfalse
    · rw [hobjs, hrange, selected_append, selected_cons_of_pos hx]
      cases selected pred a with
      | nil => rfl
      | cons y l => rfl

/-- Pages that list everything work. -/
theorem works_of_pagesFrom (hlimit : 0 < limit) (h : PagesFrom s keyPrefix pred limit start ps)
    (hall : ps.flatten = selected pred (s.range keyPrefix start)) :
    Works s keyPrefix pred limit start := by
  induction h with
  | @last start fuel out hloop hmore =>
    rw [List.flatten_cons, List.flatten_nil, List.append_nil] at hall
    obtain ⟨hgood, ⟨hfew, -⟩ | ⟨a, x, b, hrange, hx, hlen, -, -, hb⟩⟩ :=
      good_or_twice hlimit hloop (hall ▸ nodup_selected s keyPrefix start)
    · exact .few hgood hfew
    · rw [hmore, eq_comm, Bool.not_eq_false', List.isEmpty_iff] at hb
      exact .full hgood (hb ▸ hrange) hx hlen
  | @next start fuel out start' ps hloop hmore htoken hpages ih =>
    rw [List.flatten_cons] at hall
    have hnodup : (out.objs ++ ps.flatten).Nodup := hall ▸ nodup_selected s keyPrefix start
    obtain ⟨hnodup₁, hnodup₂, -⟩ := List.nodup_append.mp hnodup
    obtain ⟨hgood, ⟨-, -, hfalse⟩ | ⟨a, x, b, hrange, hx, hlen, hobjs, hlast, hb⟩⟩ :=
      good_or_twice hlimit hloop hnodup₁
    · cases hmore.symm.trans hfalse
    · have hrest : ps.flatten = selected pred b := by
        rw [hobjs, hrange, selected_append, selected_cons_of_pos hx, List.append_assoc,
          List.singleton_append] at hall
        exact (List.cons.inj (List.append_cancel_left hall)).2
      have hsame : selected pred b = selected pred (s.range keyPrefix start') :=
        selected_eq_of_head hrange (hrest ▸ head_flatten hlimit hpages hnodup₂)
      rw [hmore, eq_comm, Bool.not_eq_true', List.isEmpty_eq_false_iff] at hb
      exact .more hgood hrange hb hx hlen (hlast ▸ htoken) hsame (ih (hrest.trans hsame))

/-- Where the pages work, they list everything. -/
theorem pagesFrom_of_works (hlimit : 0 < limit) (h : Works s keyPrefix pred limit start) :
    ∃ ps, PagesFrom s keyPrefix pred limit start ps ∧
      ps.flatten = selected pred (s.range keyPrefix start) ∧ ∀ page ∈ ps, page.length ≤ limit := by
  induction h with
  | @few start hgood hfew =>
    obtain ⟨fuel, out, hpage, hloop⟩ := fetchLoop_of_good hlimit hgood
    rcases hpage with ⟨-, hobjs, hmore⟩ | ⟨a, x, b, hrange, hx, hlen, -⟩
    · refine ⟨[out.objs], .last hloop hmore, by simp [hobjs], fun page hp => ?_⟩
      rw [List.mem_singleton.mp hp, hobjs]
      exact hfew.le
    · rw [hrange, selected_append, selected_cons_of_pos hx, List.length_append,
        List.length_cons] at hfew
      omega
  | @full start a x hgood hrange hx hlen =>
    obtain ⟨fuel, out, hpage, hloop⟩ := fetchLoop_of_good hlimit hgood
    rcases hpage with ⟨hfew, -⟩ | ⟨a', x', b', hrange', hx', hlen', hobjs, -, hmore⟩
    · rw [hrange, selected_append, List.length_append, selected_cons_of_pos hx,
        List.length_cons] at hfew
      omega
    · obtain ⟨rfl, rfl, rfl⟩ := split_unique (hrange.symm.trans hrange') hx hx' (by omega)
      refine ⟨[out.objs], .last hloop hmore, ?_, fun page hp => ?_⟩
      · rw [hobjs, hrange, selected_append, selected_cons_of_pos hx]
        simp [selected]
      · rw [List.mem_singleton.mp hp, hobjs, List.length_append, List.length_singleton]
        exact hlen.le
  | @more start a x b start' hgood hrange hb hx hlen htoken hsame _ ih =>
    obtain ⟨ps, hpages, hflatten, hlengths⟩ := ih
    obtain ⟨fuel, out, hpage, hloop⟩ := fetchLoop_of_good hlimit hgood
    rcases hpage with ⟨hfew, -⟩ | ⟨a', x', b', hrange', hx', hlen', hobjs, hlast, hmore⟩
    · rw [hrange, selected_append, List.length_append, selected_cons_of_pos hx,
        List.length_cons] at hfew
      omega
    · obtain ⟨rfl, rfl, rfl⟩ := split_unique (hrange.symm.trans hrange') hx hx' (by omega)
      rw [List.isEmpty_eq_false_iff.mpr hb, Bool.not_false] at hmore
      refine ⟨out.objs :: ps, .next hloop hmore (hlast ▸ htoken) hpages, ?_, fun page hp => ?_⟩
      · rw [List.flatten_cons, hflatten, hobjs, hrange, selected_append, selected_cons_of_pos hx,
          hsame, List.append_assoc, List.singleton_append]
      · rcases List.mem_cons.mp hp with rfl | hmem
        · rw [hobjs, List.length_append, List.length_singleton]
          exact hlen.le
        · exact hlengths page hmem

end Pages

/-! ## Tokens and starts -/

/-- The key that a token, or none, starts from. -/
def startOf (keyPrefix : String) : Option Continue → Except ListError String
  | none => .ok keyPrefix
  | some c => (c.continue_ keyPrefix).map Prod.fst

theorem startOf_some (keyPrefix : String) (c : Continue) :
    startOf keyPrefix (some c) = (c.continue_ keyPrefix).map Prod.fst := rfl

section Tokens

variable {s : EtcdStore V} {pre preparedKey kp start lastKey : String} {opts : ListOption V}
  {token : Option Continue} {c : Continue} {rv : ℤ} {fuel : ℕ} {r : DataObjList V} {out : Fetched V}
  {ps : List (List (Stored V))}

/-- The token of a key leads where the key does. -/
theorem startOf_token (hrv : rv ≠ 0) (h : encodeContinue (lastKey ++ "\x000") kp rv = .ok c) :
    startOf kp (some c) = .ok start ↔ tokenStart kp lastKey = some start := by
  unfold encodeContinue at h
  rcases hafter : afterPrefix kp (lastKey ++ "\x000") with _ | nextKey
  · rw [hafter] at h
    cases h
  · rw [hafter] at h
    obtain rfl := Except.ok.inj h
    rw [startOf_some]
    unfold Continue.continue_ tokenStart
    dsimp only
    rw [hafter, Option.bind_some, if_neg hrv]
    by_cases hempty : nextKey = ""
    · rw [if_pos hempty, if_pos hempty]
      exact iff_of_false (fun h => nomatch h) fun h => nomatch h
    · rw [if_neg hempty, if_neg hempty]
      exact ⟨fun h => congrArg some (Except.ok.inj h),
        fun h => congrArg Except.ok (Option.some.inj h)⟩

theorem encodeContinue_of_tokenStart (rv : ℤ) (h : tokenStart kp lastKey = some start) :
    ∃ c, encodeContinue (lastKey ++ "\x000") kp rv = .ok c := by
  obtain ⟨nextKey, hafter, -⟩ := Option.bind_eq_some_iff.mp h
  unfold encodeContinue
  rw [hafter]
  exact ⟨_, rfl⟩

theorem finish_ok (h : EtcdStore.finish opts kp rv out = .ok r) : r.objs = out.objs ∧
    (out.hasMore = false ∧ r.continue_ = none ∨ out.hasMore = true ∧
      ∃ c, encodeContinue (out.lastKey ++ "\x000") kp rv = .ok c ∧ r.continue_ = some c) := by
  unfold EtcdStore.finish at h
  rcases hmore : out.hasMore
  · rw [hmore, if_neg Bool.false_ne_true] at h
    obtain rfl := Except.ok.inj h
    exact ⟨rfl, Or.inl ⟨rfl, rfl⟩⟩
  · rw [hmore, if_pos rfl] at h
    rcases hnext : encodeContinue (out.lastKey ++ "\x000") kp rv with e | next
    · rw [hnext] at h
      cases h
    · rw [hnext] at h
      obtain rfl := Except.ok.inj h
      exact ⟨rfl, Or.inr ⟨rfl, next, rfl, rfl⟩⟩

variable (hprepare : s.prepareKey pre = .ok preparedKey) (hpaging : s.pagingEnable = true)
  (hlimit : 0 < opts.limit) (hrev : 0 < s.revision) (hopt : opts.revision ≤ s.revision)

include hprepare hpaging hlimit hrev hopt

/-- A list with a token is its loop from the key of the token on. -/
theorem list_eq (fuel : ℕ) (hstart : startOf (EtcdStore.keyPrefix preparedKey) token = .ok start) :
    ∃ rv : ℤ, rv ≠ 0 ∧ s.list fuel pre { opts with continue_ := token } =
      (fetchLoop (s.range (EtcdStore.keyPrefix preparedKey) start) opts.pred opts.limit true fuel
        opts.limit [] "").map fun r =>
          r.bind (EtcdStore.finish { opts with continue_ := token }
            (EtcdStore.keyPrefix preparedKey) rv) := by
  have hnew : ¬ (opts.revision ≠ 0 ∧ s.revision < opts.revision) := fun h => absurd h.2
    (not_lt.mpr hopt)
  have hflag : (s.pagingEnable && decide (0 < opts.limit)) = true := by
    rw [hpaging, Bool.true_and, decide_eq_true hlimit]
  have hlist : ∀ rv : ℤ, 0 ≤ rv → s.listStart pre { opts with continue_ := token } =
      .ok (EtcdStore.keyPrefix preparedKey, start, rv) → ∃ rv : ℤ, rv ≠ 0 ∧
      s.list fuel pre { opts with continue_ := token } =
        (fetchLoop (s.range (EtcdStore.keyPrefix preparedKey) start) opts.pred opts.limit true fuel
          opts.limit [] "").map fun r =>
            r.bind (EtcdStore.finish { opts with continue_ := token }
              (EtcdStore.keyPrefix preparedKey) rv) := by
    intro rv hrv hls
    refine ⟨if rv = 0 then s.revision else rv, ?_, ?_⟩
    · split
      next => exact hrev.ne'
      next hne => exact hne
    · unfold EtcdStore.list
      rw [hls]
      dsimp only
      rw [if_neg hnew, hflag]
  rcases token with _ | c
  · obtain rfl := Except.ok.inj hstart
    refine hlist (if 0 < opts.revision ∧
      opts.revisionMatch = .exact then opts.revision else 0) ?_ ?_
    · split
      next h => exact h.1.le
      next => exact le_rfl
    · unfold EtcdStore.listStart
      rw [hprepare, hpaging]
      rfl
  · rw [startOf_some] at hstart
    rcases hcont : c.continue_ (EtcdStore.keyPrefix preparedKey) with e | ⟨k, rv⟩
    · rw [hcont] at hstart
      cases hstart
    · rw [hcont] at hstart
      obtain rfl := Except.ok.inj hstart
      refine hlist (if 0 < rv then rv else 0) ?_ ?_
      · split
        next h => exact h.le
        next => exact le_rfl
      · unfold EtcdStore.listStart
        rw [hprepare, hpaging]
        show (c.continue_ (EtcdStore.keyPrefix preparedKey)).bind _ = _
        rw [hcont]
        rfl

omit hlimit hrev hopt in
/-- A list that returns has a token that leads somewhere. -/
theorem startOf_of_list (h : s.list fuel pre { opts with continue_ := token } = some (.ok r)) :
    ∃ start, startOf (EtcdStore.keyPrefix preparedKey) token = .ok start := by
  rcases token with _ | c
  · exact ⟨_, rfl⟩
  · rw [startOf_some]
    rcases hcont : c.continue_ (EtcdStore.keyPrefix preparedKey) with e | p
    · have hls : s.listStart pre { opts with continue_ := some c } = .error e := by
        unfold EtcdStore.listStart
        rw [hprepare, hpaging]
        show (c.continue_ (EtcdStore.keyPrefix preparedKey)).bind _ = _
        rw [hcont]
        rfl
      unfold EtcdStore.list at h
      rw [hls] at h
      cases h
    · exact ⟨p.1, rfl⟩

theorem pagesFrom_of_pages (h : s.Pages pre opts token ps) :
    ∃ start, startOf (EtcdStore.keyPrefix preparedKey) token = .ok start ∧
      PagesFrom s (EtcdStore.keyPrefix preparedKey) opts.pred opts.limit start ps := by
  induction h with
  | @last token fuel r hlist hnone =>
    obtain ⟨start, hstart⟩ := startOf_of_list hprepare hpaging hlist
    obtain ⟨rv, -, heq⟩ := list_eq hprepare hpaging hlimit hrev hopt fuel hstart
    obtain ⟨res, hloop, hres⟩ := Option.map_eq_some_iff.mp (heq.symm.trans hlist)
    rcases res with e | out
    · cases hres
    · obtain ⟨hobjs, ⟨hmore, -⟩ | ⟨-, c, -, hc⟩⟩ := finish_ok hres
      · exact ⟨start, hstart, hobjs ▸ .last hloop hmore⟩
      · cases hnone.symm.trans hc
  | @next token fuel r c ps hlist hsome _ ih =>
    obtain ⟨start, hstart⟩ := startOf_of_list hprepare hpaging hlist
    obtain ⟨rv, hrv, heq⟩ := list_eq hprepare hpaging hlimit hrev hopt fuel hstart
    obtain ⟨res, hloop, hres⟩ := Option.map_eq_some_iff.mp (heq.symm.trans hlist)
    obtain ⟨start', hstart', hpages⟩ := ih
    rcases res with e | out
    · cases hres
    · obtain ⟨hobjs, ⟨-, hnone⟩ | ⟨hmore, c', hencode, hc⟩⟩ := finish_ok hres
      · cases hsome.symm.trans hnone
      · obtain rfl := Option.some.inj (hsome.symm.trans hc)
        exact ⟨start, hstart, hobjs ▸ .next hloop hmore
          ((startOf_token hrv hencode).mp hstart') hpages⟩

theorem pages_of_pagesFrom
    (h : PagesFrom s (EtcdStore.keyPrefix preparedKey) opts.pred opts.limit start ps)
    (hstart : startOf (EtcdStore.keyPrefix preparedKey) token = .ok start) :
    s.Pages pre opts token ps := by
  induction h generalizing token with
  | @last start fuel out hloop hmore =>
    obtain ⟨rv, -, heq⟩ := list_eq hprepare hpaging hlimit hrev hopt fuel hstart
    have hfinish : EtcdStore.finish { opts with continue_ := token }
      (EtcdStore.keyPrefix preparedKey) rv
        out = .ok ⟨out.objs, rv, none, -1⟩ := by
      unfold EtcdStore.finish
      rw [hmore, if_neg Bool.false_ne_true]
    rw [hloop, Option.map_some] at heq
    exact .last (heq.trans (congrArg some hfinish)) rfl
  | @next start fuel out start' ps hloop hmore htoken _ ih =>
    obtain ⟨rv, hrv, heq⟩ := list_eq hprepare hpaging hlimit hrev hopt fuel hstart
    obtain ⟨c, hencode⟩ := encodeContinue_of_tokenStart rv htoken
    have hfinish : EtcdStore.finish { opts with continue_ := token }
      (EtcdStore.keyPrefix preparedKey) rv
        out = .ok ⟨out.objs, rv, some c,
          if opts.empty then (out.count : ℤ) - opts.limit else -1⟩ := by
      unfold EtcdStore.finish
      rw [hmore, if_pos rfl, hencode]
      rfl
    rw [hloop, Option.map_some] at heq
    exact .next (heq.trans (congrArg some hfinish)) rfl
      (ih ((startOf_token hrv hencode).mpr htoken))

end Tokens

/-! ## The keys under a prefix -/

section Under

variable {s : EtcdStore V} {pre preparedKey : String} {opts : ListOption V}

/-- What lies between a list that ends with a slash and the one that ends with the next character
starts with the slash. -/
theorem between_slash (q k : List Char) : (¬ k < q ++ ['/'] ∧ k < q ++ ['0']) ↔
    q ++ ['/'] <+: k := by
  induction q generalizing k with
  | nil =>
    cases k with
    | nil => simp
    | cons c k =>
      have hc : (¬ c < '/' ∧ c < '0') ↔ '/' = c := by
        constructor
        · rintro ⟨hlo, hhi⟩
          refine Char.toNat_inj.mp ?_
          rw [Char.lt_def, UInt32.lt_iff_toNat_lt] at hlo hhi
          have hslash : '/'.val.toNat = 47 := rfl
          have hzero : '0'.val.toNat = 48 := rfl
          show '/'.val.toNat = c.val.toNat
          omega
        · rintro rfl
          decide
      simp only [List.nil_append, List.cons_lt_cons_iff, List.not_lt_nil, and_false, or_false,
        List.cons_prefix_cons, List.nil_prefix, and_true]
      exact hc
  | cons d q ih =>
    cases k with
    | nil => simp
    | cons c k =>
      rw [List.cons_append, List.cons_append, List.cons_lt_cons_iff, List.cons_lt_cons_iff,
        List.cons_prefix_cons, ← ih k]
      constructor
      · rintro ⟨hlo, hhi⟩
        obtain ⟨hle, hrest⟩ := not_or.mp hlo
        rcases hhi with hlt | ⟨rfl, hhi⟩
        · exact absurd hlt hle
        · exact ⟨rfl, fun h => hrest ⟨rfl, h⟩, hhi⟩
      · rintro ⟨rfl, hlo, hhi⟩
        exact ⟨not_or.mpr ⟨lt_irrefl _, fun h => hlo h.2⟩, Or.inr ⟨rfl, hhi⟩⟩

/-- The prefix of a list ends with a slash. -/
theorem keyPrefix_toList (preparedKey : String) :
    ∃ q, (EtcdStore.keyPrefix preparedKey).toList = q ++ ['/'] := by
  unfold EtcdStore.keyPrefix
  split
  next h =>
    obtain ⟨q, hq⟩ := List.isSuffixOf_iff_suffix.mp h
    exact ⟨q, hq.symm⟩
  next => exact ⟨preparedKey.toList, toList_append⟩

/-- From the prefix on, a list sees the keys with it. -/
theorem range_keyPrefix (s : EtcdStore V) (preparedKey : String) :
    s.range (EtcdStore.keyPrefix preparedKey) (EtcdStore.keyPrefix preparedKey) =
      s.contents.toList.filter fun p =>
        (EtcdStore.keyPrefix preparedKey).toList.isPrefixOf p.1.toList := by
  obtain ⟨q, hq⟩ := keyPrefix_toList preparedKey
  have hend : (getPrefixRangeEnd (EtcdStore.keyPrefix preparedKey)).toList = q ++ ['0'] := by
    unfold getPrefixRangeEnd
    rw [hq, List.getLast?_concat, List.dropLast_concat]
    exact toList_ofList
  unfold EtcdStore.range
  refine List.filter_congr fun p _ => ?_
  rw [Bool.eq_iff_iff, Bool.and_eq_true, decide_eq_true_iff, decide_eq_true_iff, ← not_lt,
    lt_iff_toList_lt, lt_iff_toList_lt, hend, hq, List.isPrefixOf_iff_prefix]
  exact between_slash q p.1.toList

/-- What a list is about: the objects under the prefix that are selected. -/
def listed (s : EtcdStore V) (preparedKey : String) (pred : DataObject V → Bool) :
    List (Stored V) :=
  s.contents.toList.filter fun p =>
    (EtcdStore.keyPrefix preparedKey).toList.isPrefixOf p.1.toList && pred p.2

theorem selected_range (s : EtcdStore V) (preparedKey : String) (pred : DataObject V → Bool) :
    selected pred (s.range (EtcdStore.keyPrefix preparedKey) (EtcdStore.keyPrefix preparedKey)) =
      listed s preparedKey pred := by
  rw [range_keyPrefix]
  unfold selected listed
  rw [List.filter_filter]
  exact List.filter_congr fun p _ => Bool.and_comm ..

/-- Without pages all is looked at. -/
theorem readKvs_unpaged (pred : DataObject V → Bool) (limit : ℕ) (kvs v : List (Stored V))
    (last : String) (more : Bool) :
    ∃ k, readKvs pred limit false kvs v last more = (v ++ selected pred kvs, k, more) := by
  induction kvs generalizing v last with
  | nil => exact ⟨last, by rw [selected_nil, List.append_nil]; rfl⟩
  | cons y kvs ih =>
    unfold readKvs
    rw [Bool.false_and, if_neg Bool.false_ne_true]
    obtain ⟨k, hk⟩ := ih (if pred y.2 then v ++ [y] else v) y.1
    refine ⟨k, hk.trans ?_⟩
    by_cases hy : pred y.2 = true
    · rw [if_pos hy, selected_cons_of_pos hy, List.append_assoc, List.singleton_append]
    · rw [if_neg hy, selected_cons_of_neg hy]

/-- Without pages a list returns all at once. -/
theorem list_unpaged (opts : ListOption V) (hprepare : s.prepareKey pre = .ok preparedKey)
    (hpaging : (s.pagingEnable && decide (0 < opts.limit)) = false)
    (hnone : s.pagingEnable = false ∨ opts.continue_ = none)
    (hopt : opts.revision = 0 ∨ opts.revision ≤ s.revision) (fuel : ℕ) :
    ∃ rv, s.list (fuel + 1) pre opts =
      some (.ok ⟨listed s preparedKey opts.pred, rv, none, -1⟩) := by
  have hnew : ¬ (opts.revision ≠ 0 ∧ s.revision < opts.revision) := fun h =>
    hopt.elim h.1 (not_le.mpr h.2)
  have htoken : (if s.pagingEnable then opts.continue_ else none) = none := by
    rcases hnone with h | h
    · rw [h]
      rfl
    · rw [h, ite_self]
  obtain ⟨k, hread⟩ := readKvs_unpaged opts.pred opts.limit
    (s.range (EtcdStore.keyPrefix preparedKey) (EtcdStore.keyPrefix preparedKey)) [] "" false
  have hloop : fetchLoop (s.range (EtcdStore.keyPrefix preparedKey)
    (EtcdStore.keyPrefix preparedKey))
      opts.pred opts.limit false (fuel + 1) opts.limit [] "" =
        some (.ok ⟨listed s preparedKey opts.pred, k, false,
          (s.range (EtcdStore.keyPrefix preparedKey)
            (EtcdStore.keyPrefix preparedKey)).length⟩) := by
    unfold fetchLoop answer
    dsimp only
    rw [if_neg Bool.false_ne_true, if_pos rfl, bne_self_eq_false, Bool.false_and, Bool.and_false,
      if_neg Bool.false_ne_true, hread, selected_range]
    rfl
  unfold EtcdStore.list EtcdStore.listStart
  rw [hprepare, htoken, hpaging]
  dsimp only [bind, Except.bind, pure, Except.pure]
  rw [if_neg hnew, hloop]
  exact ⟨_, rfl⟩

end Under

/-! ## The promise -/

/-- Repeating a list with its tokens gives the objects under the prefix that are selected, each
once and in the order of the keys, and no page is longer than the limit. -/
def ListsAll (s : EtcdStore V) (pre preparedKey : String) (opts : ListOption V) : Prop :=
  ∃ ps, s.Pages pre opts none ps ∧ ps.flatten = listed s preparedKey opts.pred ∧
    ∀ page ∈ ps, page.length ≤ opts.limit

section Promise

variable {s : EtcdStore V} {pre preparedKey : String} {opts : ListOption V}

theorem listsAll_of_paging (hprepare : s.prepareKey pre = .ok preparedKey)
    (hpaging : s.pagingEnable = true) (hlimit : 0 < opts.limit) (hrev : 0 < s.revision)
    (hopt : opts.revision ≤ s.revision) : ListsAll s pre preparedKey opts ↔
      Works s (EtcdStore.keyPrefix preparedKey) opts.pred opts.limit
      (EtcdStore.keyPrefix preparedKey) := by
  constructor
  · rintro ⟨ps, hpages, hall, -⟩
    obtain ⟨start, hstart, hfrom⟩ := pagesFrom_of_pages hprepare hpaging hlimit hrev hopt hpages
    obtain rfl := Except.ok.inj hstart
    exact works_of_pagesFrom hlimit hfrom (hall.trans (selected_range ..).symm)
  · intro hworks
    obtain ⟨ps, hfrom, hall, hlengths⟩ := pagesFrom_of_works hlimit hworks
    exact ⟨ps, pages_of_pagesFrom hprepare hpaging hlimit hrev hopt hfrom rfl,
      hall.trans (selected_range ..), hlengths⟩

theorem listsAll_of_not_paging (hprepare : s.prepareKey pre = .ok preparedKey)
    (hpaging : s.pagingEnable = false) (hopt : opts.revision ≤ s.revision) :
    ListsAll s pre preparedKey opts ↔ (listed s preparedKey opts.pred).length ≤ opts.limit := by
  have hlist : ∀ (token : Option Continue) (fuel : ℕ), ∃ rv,
      s.list (fuel + 1) pre { opts with continue_ := token } =
        some (.ok ⟨listed s preparedKey opts.pred, rv, none, -1⟩) := fun token fuel =>
    list_unpaged { opts with continue_ := token } hprepare (by rw [hpaging, Bool.false_and])
      (Or.inl hpaging) (Or.inr hopt) fuel
  have hnone : ∀ (fuel : ℕ) (r : DataObjList V),
      s.list fuel pre { opts with continue_ := none } = some (.ok r) → r.continue_ = none := by
    intro fuel r h
    cases fuel with
    | zero =>
      unfold EtcdStore.list at h
      split at h
      next => cases h
      next =>
        split at h
        next => cases h
        next => cases h
    | succ fuel =>
      obtain ⟨rv, heq⟩ := hlist none fuel
      obtain rfl := Except.ok.inj (Option.some.inj (heq.symm.trans h))
      rfl
  constructor
  · rintro ⟨ps, hpages, hall, hlengths⟩
    cases hpages with
    | last h _ =>
      rw [List.flatten_cons, List.flatten_nil, List.append_nil] at hall
      rw [← hall]
      exact hlengths _ (List.mem_singleton_self _)
    | next h hsome _ => cases (hnone _ _ h).symm.trans hsome
  · intro hle
    obtain ⟨rv, heq⟩ := hlist none 0
    refine ⟨_, .last heq rfl, by simp, fun page hp => ?_⟩
    rw [List.mem_singleton.mp hp]
    exact hle

/-- **Following the tokens.** It lists everything exactly if the pages work; where the store does
not page, exactly if all fits on one page. -/
theorem listsAll_iff (hprepare : s.prepareKey pre = .ok preparedKey) (hlimit : 0 < opts.limit)
    (hrev : 0 < s.revision) (hopt : opts.revision ≤ s.revision) :
    ListsAll s pre preparedKey opts ↔
      (s.pagingEnable = true ∧ Works s (EtcdStore.keyPrefix preparedKey) opts.pred opts.limit
        (EtcdStore.keyPrefix preparedKey)) ∨
      (s.pagingEnable = false ∧ (listed s preparedKey opts.pred).length ≤ opts.limit) := by
  rcases hpaging : s.pagingEnable
  · rw [listsAll_of_not_paging hprepare hpaging hopt]
    simp
  · rw [listsAll_of_paging hprepare hpaging hlimit hrev hopt]
    simp

/-- Two pods, one to a page. -/
theorem listsAll_two :
    let pod : String → DataObject Unit := fun name =>
      { objType := "pod", tenant := "acme", nameSpace := "ns", name, object := () }
    let s : EtcdStore Unit := {
      pagingEnable := true
      contents := ((∅ : Objects Unit).insert "/registry/pod/acme/ns/a" (pod "a")).insert
        "/registry/pod/acme/ns/b" (pod "b")
      revision := 7 }
    let opts : ListOption Unit := { pred := fun _ => true, limit := 1 }
    ListsAll s "pod" "/registry/pod" opts ↔
      (s.pagingEnable = true ∧ Works s (EtcdStore.keyPrefix "/registry/pod") opts.pred opts.limit
        (EtcdStore.keyPrefix "/registry/pod")) ∨
      (s.pagingEnable = false ∧ (listed s "/registry/pod" opts.pred).length ≤ opts.limit) := by
  intro pod s opts
  exact listsAll_iff (by decide +kernel) (by decide) (by decide) (by decide)

/-- **An object twice.** Of three pods one is selected. The first read for a page of two finds it
and knows of more keys, and the second read finds it again. -/
theorem list_twice :
    let pod : String → DataObject Unit := fun name =>
      { objType := "pod", tenant := "acme", nameSpace := "ns", name, object := () }
    let s : EtcdStore Unit := {
      pagingEnable := true
      contents := (((∅ : Objects Unit).insert "/registry/pod/acme/ns/a" (pod "a")).insert
        "/registry/pod/acme/ns/b" (pod "b")).insert "/registry/pod/acme/ns/c" (pod "c")
      revision := 7 }
    let opts : ListOption Unit := { pred := fun o => o.name = "a", limit := 2 }
    (s.list 2 "pod" opts).map (fun r => r.toOption.map DataObjList.objs) = some (some
        [("/registry/pod/acme/ns/a", pod "a"), ("/registry/pod/acme/ns/a", pod "a")]) ∧
      listed s "/registry/pod" opts.pred = [("/registry/pod/acme/ns/a", pod "a")] ∧
      ¬ ListsAll s "pod" "/registry/pod" opts := by
  intro pod s opts
  refine ⟨by decide +kernel, by decide +kernel, fun h => ?_⟩
  have hworks := (listsAll_of_paging
    (by decide +kernel) rfl (by decide) (by decide) (by decide)).mp h
  have hrange : s.range (EtcdStore.keyPrefix "/registry/pod")
    (EtcdStore.keyPrefix "/registry/pod") =
      [("/registry/pod/acme/ns/a", pod "a"), ("/registry/pod/acme/ns/b", pod "b"),
        ("/registry/pod/acme/ns/c", pod "c")] := by decide +kernel
  have hgood : GoodPage opts.pred opts.limit
      (s.range (EtcdStore.keyPrefix "/registry/pod") (EtcdStore.keyPrefix "/registry/pod")) := by
    cases hworks with
    | few hgood => exact hgood
    | full hgood => exact hgood
    | more hgood => exact hgood
  rw [hrange] at hgood
  obtain ⟨n, hidle, hgood⟩ := hgood
  cases n with
  | zero =>
    rcases hgood with hall | hfull
    · exact absurd hall (by decide)
    · exact absurd hfull (by decide +kernel)
  | succ n => exact absurd (hidle 0 (Nat.zero_lt_succ n)).2 (by decide +kernel)

end Promise

end Inferx.Etcd
