import Mathlib.Data.List.Basic

/-!
# The rest after some segments

A list with a separator is cut into segments, empty ones included. `After s n l r` says what
the rest after the first `n` of them is, with no word about how it is found; there is one at
most (`after_unique`), and putting the separator before each segment that is left gives it
(`after_joined`).
-/

namespace Cut

variable {α : Type} {s : α}

/-- The segments, each with the separator before it. -/
def joined (s : α) (parts : List (List α)) : List α := parts.flatMap (s :: ·)

@[simp] theorem joined_cons (p : List α) (parts : List (List α)) :
    joined s (p :: parts) = s :: p ++ joined s parts := rfl

theorem joined_append (parts parts' : List (List α)) :
    joined s (parts ++ parts') = joined s parts ++ joined s parts' := List.flatMap_append

theorem joined_head (parts : List (List α)) :
    joined s parts = [] ∨ (joined s parts).head? = some s := by
  cases parts with
  | nil => exact .inl rfl
  | cons p parts => exact .inr rfl

theorem intercalate_cons (p : List α) (parts : List (List α)) :
    [s].intercalate (p :: parts) = p ++ joined s parts := by
  induction parts generalizing p with
  | nil => simp [List.intercalate, joined]
  | cons q parts ih =>
    have hcons : [s].intercalate (p :: q :: parts) = p ++ s :: [s].intercalate (q :: parts) := by
      simp [List.intercalate]
    rw [hcons, ih q, joined_cons, List.cons_append]

/-- What a word starts with is in its first segment. -/
theorem prefix_append_iff {w p r : List α} (hw : s ∉ w) (hr : r = [] ∨ r.head? = some s) :
    w <+: p ++ r ↔ w <+: p := by
  refine ⟨fun h => ?_, fun h => h.trans (List.prefix_append p r)⟩
  obtain ⟨t, ht⟩ := h
  rcases List.append_eq_append_iff.mp ht with ⟨x, hp, -⟩ | ⟨x, rfl, hx⟩
  · exact ⟨x, hp.symm⟩
  · cases x with
    | nil => simp
    | cons c x =>
      have hc : c = s := by simpa [hx] using hr
      exact absurd (by simp [hc]) hw

variable [DecidableEq α]

/-- `r` is the rest of `l` after its first `n` segments: nothing, or from a separator on. -/
def After (s : α) (n : Nat) (l r : List α) : Prop :=
  ∃ p, l = p ++ r ∧ p.count s + 1 = n ∧ (r = [] ∨ r.head? = some s)

/-- A rest that starts further left would have a separator more. -/
theorem suffix_of_count {p q r r' : List α} (h : p ++ r = q ++ r') (hlen : p.length ≤ q.length)
    (hcount : p.count s = q.count s) (hr : r = [] ∨ r.head? = some s) : r = r' := by
  obtain ⟨x, rfl, rfl⟩ : ∃ x, q = p ++ x ∧ r = x ++ r' := by
    rcases List.append_eq_append_iff.mp h with ⟨x, hq, hx⟩ | ⟨x, hp, hx⟩
    · exact ⟨x, hq, hx⟩
    · have hnil : x = [] := by
        rw [hp, List.length_append] at hlen
        exact List.length_eq_zero_iff.mp (by omega)
      subst hnil
      exact ⟨[], by simpa using hp.symm, by simpa using hx.symm⟩
  cases x with
  | nil => rfl
  | cons c x =>
    have hc : c = s := by simpa using hr
    rw [hc, List.count_append, List.count_cons_self] at hcount
    omega

/-- There is one rest at most. -/
theorem after_unique {n : Nat} {l r r' : List α} (h : After s n l r) (h' : After s n l r') :
    r = r' := by
  obtain ⟨p, hl, hp, hr⟩ := h
  obtain ⟨q, hl', hq, hr'⟩ := h'
  have heq : p ++ r = q ++ r' := hl.symm.trans hl'
  rcases Nat.le_total p.length q.length with hlen | hlen
  · exact suffix_of_count heq hlen (by omega) hr
  · exact (suffix_of_count heq.symm hlen (by omega) hr').symm

theorem not_mem_splitOn {l q : List α} (hq : q ∈ l.splitOn s) : s ∉ q := by
  induction l generalizing q with
  | nil => simp_all
  | cons c l ih =>
    rw [List.splitOn_cons_eq_if_modifyHead] at hq
    rcases hsp : l.splitOn s with _ | ⟨p, parts⟩
    · exact absurd hsp (List.splitOn_ne_nil s l)
    · rw [hsp] at hq ih
      split at hq
      next =>
        rcases List.mem_cons.mp hq with rfl | hq
        · exact List.not_mem_nil
        · exact ih hq
      next hne =>
        rcases List.mem_cons.mp hq with rfl | hq
        · have hp : s ∉ p := ih List.mem_cons_self
          rintro hmem
          rcases List.mem_cons.mp hmem with rfl | hmem
          · exact hne (beq_self_eq_true _)
          · exact hp hmem
        · exact ih (List.mem_cons_of_mem p hq)

theorem count_joined {parts : List (List α)} (h : ∀ q ∈ parts, s ∉ q) :
    (joined s parts).count s = parts.length := by
  induction parts with
  | nil => rfl
  | cons q parts ih =>
    have hq : q.count s = 0 := List.count_eq_zero.mpr (h q List.mem_cons_self)
    rw [joined_cons, List.cons_append, List.count_cons_self, List.count_append, hq,
      ih fun q' hq' => h q' (List.mem_cons_of_mem q hq'), List.length_cons]
    omega

/-- The segments that are left, with the separator before each, are the rest. -/
theorem after_joined {n : Nat} {l : List α} (hn : 0 < n) (hle : n ≤ (l.splitOn s).length) :
    After s n l (joined s ((l.splitOn s).drop n)) := by
  obtain ⟨m, rfl⟩ : ∃ m, n = m + 1 := ⟨n - 1, by omega⟩
  have hl : [s].intercalate (l.splitOn s) = l := List.intercalate_splitOn s
  have hnot : ∀ q ∈ l.splitOn s, s ∉ q := fun q => not_mem_splitOn
  rcases hsp : l.splitOn s with _ | ⟨p, parts⟩
  · exact absurd hsp (List.splitOn_ne_nil s l)
  · rw [hsp] at hl hnot hle
    have hp : p.count s = 0 := List.count_eq_zero.mpr (hnot p List.mem_cons_self)
    have htake : (joined s (parts.take m)).count s = m := by
      rw [count_joined fun q hq => hnot q (List.mem_cons_of_mem p (List.mem_of_mem_take hq)),
        List.length_take, Nat.min_eq_left (Nat.le_of_succ_le_succ hle)]
    refine ⟨p ++ joined s (parts.take m), ?_, ?_, joined_head _⟩
    · rw [List.drop_succ_cons, List.append_assoc, ← joined_append, List.take_append_drop,
        ← intercalate_cons, hl]
    · rw [List.count_append, hp, htake]
      omega

end Cut
