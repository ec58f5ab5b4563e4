import Mathlib.Data.List.Basic

/-!
# Lines out of a stream of pieces

A reader keeps the text that it has not used yet in a buffer, adds each piece to
its end, and drains the lines that are complete. `drain` is what it drains and what
stays. Whether the text comes whole or in pieces makes no difference to the lines.
-/

namespace Inferx.Lines

/-- The complete lines of a buffer, without their newlines, and what is left. -/
def drain : List Char → List (List Char) × List Char
  | [] => ([], [])
  | c :: cs =>
    if c = '\n' then ([] :: (drain cs).1, (drain cs).2)
    else
      match (drain cs).1 with
      | [] => ([], c :: (drain cs).2)
      | l :: ls => ((c :: l) :: ls, (drain cs).2)

/-- Where there is no line, all is left. -/
theorem drain_rest {a : List Char} (h : (drain a).1 = []) : (drain a).2 = a := by
  induction a with
  | nil => rfl
  | cons c cs ih =>
    unfold drain at h ⊢
    split at h
    next => cases h
    next hc =>
      rw [if_neg hc]
      split at h
      next hnil =>
        simp only [ih hnil]
      next => cases h

/-- A text in two pieces has the lines of the first, then those of what it leaves and
the second. -/
theorem drain_append (a b : List Char) :
    drain (a ++ b) =
      ((drain a).1 ++ (drain ((drain a).2 ++ b)).1, (drain ((drain a).2 ++ b)).2) := by
  induction a with
  | nil => simp [drain]
  | cons c a ih =>
    rw [List.cons_append]
    by_cases hc : c = '\n'
    · rw [drain, if_pos hc, ih, drain, if_pos hc]
      rfl
    · rcases hlines : (drain a).1 with _ | ⟨l, ls⟩
      · -- no line yet, so the second piece is read as if the first were still in front
        have hrest := drain_rest hlines
        have hcons : drain (c :: a) = ([], c :: a) := by
          rw [drain, if_neg hc]
          simp only [hlines, hrest]
        rw [hcons]
        rfl
      · have hcons : drain (c :: a) = ((c :: l) :: ls, (drain a).2) := by
          rw [drain, if_neg hc]
          simp only [hlines]
        rw [hcons, drain, if_neg hc, ih, hlines]
        rfl

/-- What is left has no line. -/
theorem drain_left (a : List Char) : (drain (drain a).2).1 = [] := by
  have happ := drain_append a []
  rw [List.append_nil, List.append_nil] at happ
  have hlen := congrArg (fun x => x.1.length) happ
  simp only [List.length_append] at hlen
  exact List.eq_nil_of_length_eq_zero (by omega)

theorem drain_newline (a : List Char) : (drain (a ++ ['\n'])).2 = [] := by
  induction a with
  | nil => rfl
  | cons c a ih =>
    rw [List.cons_append, drain]
    split
    next => exact ih
    next =>
      split
      next hnil =>
        -- the last line is complete, so there is one
        rw [drain_rest hnil] at ih
        exact absurd ih (by simp)
      next => exact ih

/-- A line and the rest. -/
theorem drain_line {l : List Char} (hl : '\n' ∉ l) (rest : List Char) :
    drain (l ++ '\n' :: rest) = (l :: (drain rest).1, (drain rest).2) := by
  induction l with
  | nil => rfl
  | cons c l ih =>
    have hc : c ≠ '\n' := fun h => hl (h ▸ List.mem_cons_self)
    rw [List.cons_append, drain, if_neg hc, ih fun h => hl (List.mem_cons_of_mem c h)]

/-- What is drained and what stays are all lines of the text, the last one of them not ended. -/
theorem splitOn_eq (a : List Char) : a.splitOn '\n' = (drain a).1 ++ [(drain a).2] := by
  unfold List.splitOn
  induction a with
  | nil => rfl
  | cons c a ih =>
    rw [List.splitOnP_cons_eq_if_modifyHead, drain, ih]
    by_cases hc : c = '\n'
    · rw [if_pos hc, if_pos (beq_iff_eq.mpr hc)]
      rfl
    · rw [if_neg hc, if_neg (mt beq_iff_eq.mp hc)]
      rcases (drain a).1 with _ | ⟨l, ls⟩
      · rfl
      · rfl

/-- No line has a newline. -/
theorem newline_not_mem (a : List Char) : ∀ line ∈ (drain a).1, '\n' ∉ line := by
  induction a with
  | nil => exact fun line h => absurd h List.not_mem_nil
  | cons c a ih =>
    unfold drain
    split
    next => exact List.forall_mem_cons.mpr ⟨List.not_mem_nil, ih⟩
    next hc =>
      split
      next => exact fun line h => absurd h List.not_mem_nil
      next l ls hl =>
        rw [hl] at ih
        obtain ⟨hfirst, hrest⟩ := List.forall_mem_cons.mp ih
        refine List.forall_mem_cons.mpr ⟨fun h => ?_, hrest⟩
        rcases List.mem_cons.mp h with h | h
        · exact hc h.symm
        · exact hfirst h

/-- Lines that are written out are read as they were. -/
theorem drain_flatMap {lines : List (List Char)} (h : ∀ line ∈ lines, '\n' ∉ line) (a : List Char) :
    (drain (lines.flatMap (fun line => line ++ ['\n']) ++ a)).1 = lines ++ (drain a).1 := by
  induction lines with
  | nil => rfl
  | cons line lines ih =>
    obtain ⟨hline, hlines⟩ := List.forall_mem_cons.mp h
    rw [List.flatMap_cons, List.append_assoc, List.append_assoc, List.singleton_append,
      drain_line hline, ih hlines]
    rfl

/-- A text in pieces, one after the other. -/
def feed (buf : List Char) : List (List Char) → List (List Char) × List Char
  | [] => ([], buf)
  | p :: ps =>
    ((drain (buf ++ p)).1 ++ (feed (drain (buf ++ p)).2 ps).1, (feed (drain (buf ++ p)).2 ps).2)

/-- **Pieces.** A text has the same lines in whatever pieces it comes. -/
theorem feed_eq (buf : List Char) (ps : List (List Char)) (hbuf : (drain buf).1 = []) :
    feed buf ps = drain (buf ++ ps.flatten) := by
  induction ps generalizing buf with
  | nil =>
    rw [List.flatten_nil, List.append_nil, feed]
    exact Prod.ext hbuf.symm (drain_rest hbuf).symm
  | cons p ps ih =>
    rw [feed, ih _ (drain_left (buf ++ p)), List.flatten_cons, ← List.append_assoc,
      drain_append (buf ++ p)]

end Inferx.Lines
