import Inferx.Lib.Keys

/-!
# Codes

Words that can be read off one after the other: a text made of such words is made of them
in one way. Parts without a separator can be read off in front of it.
-/

namespace List

variable {α β : Type}

/-- What begins with a word begins with no other one. -/
def IsCode (f : α → List β) : Prop := ∀ a b x y, f a ++ x = f b ++ y → a = b ∧ x = y

/-- **A text is spelled in one way.** -/
theorem IsCode.flatMap_injective {f : α → List β} (hf : IsCode f) (hne : ∀ a, f a ≠ []) :
    Function.Injective fun l : List α => l.flatMap f := by
  intro l m h
  dsimp only at h
  induction l generalizing m with
  | nil =>
    cases m with
    | nil => rfl
    | cons b m => exact absurd (append_eq_nil_iff.mp h.symm).1 (hne b)
  | cons a l ih =>
    cases m with
    | nil => exact absurd (append_eq_nil_iff.mp h).1 (hne a)
    | cons b m =>
      obtain ⟨rfl, hrest⟩ := hf a b _ _ h
      rw [ih hrest]

/-- Two texts that are cut at their first separator. -/
theorem append_sep_inj {sep : α} {xs ys a b : List α} (hx : sep ∉ xs) (hy : sep ∉ ys)
    (h : xs ++ sep :: a = ys ++ sep :: b) : xs = ys ∧ a = b := by
  obtain ⟨rfl, -⟩ := part_of_prefix hx hy ⟨[], (append_nil _).trans h⟩
  exact ⟨rfl, (cons.inj (append_cancel_left h)).2⟩

end List
