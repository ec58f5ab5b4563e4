import Mathlib.Logic.Function.Basic
import Inferx.Lib.Map

/-!
# Items filed under their parents

A program keeps all its items in one map, and files each item under its parent
as well, so that it can go through the items of one parent. Items may arrive
before their parent does: these are parked, under the parent's name, and handed
over when the parent enters.

`entry` is the filing as one table: an item of a known parent is looked up with
the parent, an item of an unknown one among the parked items. A filing is
*tidy* when nothing is parked for a known parent, so that `entry` sees all of
it; it is *held* when what the known parents hold is current, whatever is
parked, and *full* when the known parents hold all their items; it is *sound* when every entry is a current item, under its own parent,
and *complete* when every current item has its entry. Each operation has one
equation for `entry`, and soundness and completeness follow from these.
-/

/-- The items of the parents that are known, and the parked ones. -/
@[ext] structure Filing (P K W : Type) [Ord P] [Ord K] where
  /-- the items of a known parent -/
  known : P → Option (BTreeMap K W)
  /-- the items whose parent is not known -/
  parked : BTreeMap P (BTreeMap K W)

namespace Filing

variable {P K W : Type}
variable [Ord P] [Std.TransOrd P] [Std.LawfulEqOrd P] [DecidableEq P]
variable [Ord K] [Std.TransOrd K] [Std.LawfulEqOrd K] [DecidableEq K]

/-- Where an item is looked up: with its parent, or among the parked ones. -/
def entry (F : Filing P K W) (p : P) (k : K) : Option W :=
  match F.known p with
  | some m => m[k]?
  | none => F.parked.getInner p k

/-- Nothing is parked for a known parent. -/
def Tidy (F : Filing P K W) : Prop :=
  ∀ p k, (F.known p).isSome → F.parked.getInner p k = none

/-- Known parents hold nothing but current items, and those are their own. -/
def Held (F : Filing P K W) (all : BTreeMap K W) (owner : W → P) : Prop :=
  ∀ (p : P) (m : BTreeMap K W) (k : K) (w : W), F.known p = some m → m[k]? = some w →
    all[k]? = some w ∧ owner w = p

/-- Known parents hold all their items. -/
def Full (F : Filing P K W) (all : BTreeMap K W) (owner : W → P) : Prop :=
  ∀ (k : K) (w : W) (m : BTreeMap K W), all[k]? = some w → F.known (owner w) = some m → m[k]? = some w

/-- Every entry is a current item, under its own parent. -/
def Sound (F : Filing P K W) (all : BTreeMap K W) (owner : W → P) : Prop :=
  ∀ p k w, F.entry p k = some w → all[k]? = some w ∧ owner w = p

/-- Every current item has its entry. -/
def Complete (F : Filing P K W) (all : BTreeMap K W) (owner : W → P) : Prop :=
  ∀ k w, all[k]? = some w → F.entry (owner w) k = some w

/-! ## Operations -/

/-- File an item, or park it. -/
def file (F : Filing P K W) (p : P) (k : K) (w : W) : Filing P K W :=
  match F.known p with
  | none => { F with parked := F.parked.setInner p k w }
  | some m => { F with known := Function.update F.known p (some (m.insert k w)) }

/-- Take an item from its parent; a parked one stays. -/
def unfile (F : Filing P K W) (p : P) (k : K) : Filing P K W :=
  { F with known := Function.update F.known p ((F.known p).map (·.erase k)) }

/-- A parent enters and takes its parked items. -/
def enter (F : Filing P K W) (p : P) : Filing P K W where
  known := Function.update F.known p (some (F.parked[p]?.getD ∅))
  parked := F.parked.erase p

/-- A parent leaves, with its items. -/
def leave (F : Filing P K W) (p : P) : Filing P K W :=
  { F with known := Function.update F.known p none }

/-- Drop what is parked for a parent. -/
def unpark (F : Filing P K W) (p : P) : Filing P K W :=
  { F with parked := F.parked.erase p }

/-- A parent leaves, and what is parked for it is dropped as well. -/
def close (F : Filing P K W) (p : P) : Filing P K W := (F.leave p).unpark p

variable {F : Filing P K W} {all : BTreeMap K W} {owner : W → P} {p q : P} {k a : K} {w v : W}

omit [Std.LawfulEqOrd P] [DecidableEq P] [Std.LawfulEqOrd K] [DecidableEq K] in
theorem entry_of_known {m : BTreeMap K W} (h : F.known p = some m) : F.entry p k = m[k]? := by
  rw [entry, h]

omit [Std.LawfulEqOrd P] [DecidableEq P] [Std.LawfulEqOrd K] [DecidableEq K] in
theorem entry_of_unknown (h : F.known p = none) : F.entry p k = F.parked.getInner p k := by
  rw [entry, h]

/-! ## The entries afterwards -/

theorem entry_file :
    (F.file p k w).entry q a = if q = p ∧ a = k then some w else F.entry q a := by
  unfold file entry
  rcases hp : F.known p with _ | m
  · by_cases hq : q = p
    · subst hq
      simp only [hp, BTreeMap.getInner_setInner]
    · simp only [BTreeMap.getInner_setInner, hq, false_and, if_false]
  · by_cases hq : q = p
    · subst hq
      simp only [Function.update_self, hp, BTreeMap.get_insert, true_and]
    · simp only [Function.update_of_ne hq, hq, false_and, if_false]

omit [Std.LawfulEqOrd P] in
theorem entry_unfile (hF : F.known p = none → F.parked.getInner p k = none) :
    (F.unfile p k).entry q a = if q = p ∧ a = k then none else F.entry q a := by
  unfold unfile entry
  by_cases hq : q = p
  · subst hq
    rcases hp : F.known q with _ | m
    · by_cases ha : a = k
      · subst ha
        simp [hF hp]
      · simp [ha]
    · simp [BTreeMap.get_erase]
  · simp [hq]

omit [Std.LawfulEqOrd P] in
/-- Taking an item from its parent does not touch other entries. -/
theorem entry_unfile_of_ne (h : q ≠ p ∨ a ≠ k) : (F.unfile p k).entry q a = F.entry q a := by
  unfold unfile entry
  by_cases hq : q = p
  · subst hq
    have ha : a ≠ k := h.resolve_left fun hne => hne rfl
    rcases F.known q with _ | m
    · simp
    · simp [BTreeMap.get_erase_of_ne ha]
  · simp [hq]

omit [Std.LawfulEqOrd K] [DecidableEq K] in
theorem entry_enter (hp : F.known p = none) : (F.enter p).entry q a = F.entry q a := by
  unfold enter entry
  by_cases hq : q = p
  · subst hq
    simp only [Function.update_self, hp, BTreeMap.getInner]
    rcases F.parked[q]? with _ | m
    · simp
    · simp
  · simp only [Function.update_of_ne hq, BTreeMap.getInner_erase, hq, if_false]

omit [Std.LawfulEqOrd P] [Std.LawfulEqOrd K] [DecidableEq K] in
theorem entry_leave (hF : F.Tidy) (hp : (F.known p).isSome) :
    (F.leave p).entry q a = if q = p then none else F.entry q a := by
  unfold leave entry
  by_cases hq : q = p
  · subst hq
    simp [hF q a hp]
  · simp [hq]

omit [Std.LawfulEqOrd K] [DecidableEq K] in
theorem entry_unpark (hp : (F.known p).isSome) : (F.unpark p).entry q a = F.entry q a := by
  unfold unpark entry
  by_cases hq : q = p
  · subst hq
    obtain ⟨m, hm⟩ := Option.isSome_iff_exists.mp hp
    simp [hm]
  · simp [BTreeMap.getInner_erase, hq]

omit [Std.LawfulEqOrd P] [Std.LawfulEqOrd K] [DecidableEq K] in
/-- Recognising a filing from what it does to the known parents. -/
theorem eq_file_of_known {F' : Filing P K W} {m : BTreeMap K W} (hp : F.known p = some m)
    (hparked : F'.parked = F.parked) (hp' : F'.known p = some (m.insert k w))
    (hne : ∀ q, q ≠ p → F'.known q = F.known q) : F' = F.file p k w := by
  unfold file
  rw [hp]
  refine Filing.ext (funext fun q => ?_) hparked
  dsimp only
  by_cases hq : q = p
  · rw [hq, Function.update_self, hp']
  · rw [Function.update_of_ne hq, hne q hq]

omit [Std.LawfulEqOrd P] [Std.LawfulEqOrd K] [DecidableEq K] in
theorem file_of_unknown (hp : F.known p = none) :
    F.file p k w = { F with parked := F.parked.setInner p k w } := by
  unfold file
  rw [hp]

omit [Std.TransOrd P] [Std.LawfulEqOrd P] [Std.LawfulEqOrd K] [DecidableEq K] in
theorem eq_unfile {F' : Filing P K W} (hparked : F'.parked = F.parked)
    (hp : F'.known p = (F.known p).map (·.erase k))
    (hne : ∀ q, q ≠ p → F'.known q = F.known q) : F' = F.unfile p k := by
  refine Filing.ext (funext fun q => ?_) hparked
  unfold unfile
  dsimp only
  by_cases hq : q = p
  · rw [hq, Function.update_self, hp]
  · rw [Function.update_of_ne hq, hne q hq]

omit [Std.TransOrd P] [Std.LawfulEqOrd P] [Std.LawfulEqOrd K] [DecidableEq K] in
theorem unfile_of_unknown (hp : F.known p = none) : F.unfile p k = F := by
  unfold unfile
  rw [hp, Option.map_none, ← hp, Function.update_eq_self]

/-! ## Tidiness -/

theorem Tidy.file (hF : F.Tidy) : (F.file p k w).Tidy := by
  intro q a hq
  unfold Filing.file at hq ⊢
  rcases hp : F.known p with _ | m
  · rw [hp] at hq
    rw [BTreeMap.getInner_setInner, if_neg]
    · exact hF q a hq
    · rintro ⟨rfl, -⟩
      rw [hp] at hq
      cases hq
  · refine hF q a ?_
    rw [hp] at hq
    by_cases hqp : q = p
    · rw [hqp, hp]
      rfl
    · simpa [hqp] using hq

omit [Std.LawfulEqOrd P] [Std.LawfulEqOrd K] [DecidableEq K] in
theorem Tidy.unfile (hF : F.Tidy) : (F.unfile p k).Tidy := by
  intro q a hq
  refine hF q a ?_
  by_cases hqp : q = p
  · subst hqp
    simpa [Filing.unfile] using hq
  · simpa [Filing.unfile, hqp] using hq

omit [Std.LawfulEqOrd K] [DecidableEq K] in
theorem Tidy.enter (hF : F.Tidy) : (F.enter p).Tidy := by
  intro q a hq
  unfold Filing.enter at hq ⊢
  rw [BTreeMap.getInner_erase]
  by_cases hqp : q = p
  · rw [if_pos hqp]
  · rw [if_neg hqp]
    exact hF q a (by simpa [hqp] using hq)

omit [Std.LawfulEqOrd P] [Std.LawfulEqOrd K] [DecidableEq K] in
theorem Tidy.leave (hF : F.Tidy) : (F.leave p).Tidy := by
  intro q a hq
  refine hF q a ?_
  by_cases hqp : q = p
  · subst hqp
    simp [Filing.leave] at hq
  · simpa [Filing.leave, hqp] using hq

omit [Std.LawfulEqOrd K] [DecidableEq K] in
theorem Tidy.unpark (hF : F.Tidy) : (F.unpark p).Tidy := by
  intro q a hq
  unfold Filing.unpark at hq ⊢
  rw [BTreeMap.getInner_erase, hF q a hq, ite_self]

/-! ## What known parents hold -/

omit [Std.LawfulEqOrd P] in
theorem Held.file (h : F.Held all owner) (hown : ∀ v, all[k]? = some v → owner v = owner w) :
    (F.file (owner w) k w).Held (all.insert k w) owner := by
  -- what another parent holds, or another key, is as current as it was
  have hother : ∀ q m a v, F.known q = some m → m[a]? = some v → q ≠ owner w ∨ a ≠ k →
      (all.insert k w)[a]? = some v ∧ owner v = q := by
    intro q m a v hq hv hne
    obtain ⟨hall, hqv⟩ := h q m a v hq hv
    refine ⟨?_, hqv⟩
    rw [BTreeMap.get_insert_of_ne]
    · exact hall
    · intro ha
      subst ha
      exact (hne.resolve_right fun h => h rfl) (hqv.symm.trans (hown v hall))
  intro q m a v hq hv
  unfold Filing.file at hq
  rcases hp : F.known (owner w) with _ | m₀
  · rw [hp] at hq
    refine hother q m a v hq hv (Or.inl fun hqw => ?_)
    subst hqw
    exact absurd (hp.symm.trans hq) nofun
  · rw [hp] at hq
    dsimp only at hq
    by_cases hqw : q = owner w
    · subst hqw
      rw [Function.update_self] at hq
      obtain rfl := Option.some.inj hq
      by_cases ha : a = k
      · subst ha
        rw [BTreeMap.get_insert_self] at hv
        obtain rfl := Option.some.inj hv
        exact ⟨BTreeMap.get_insert_self .., rfl⟩
      · rw [BTreeMap.get_insert_of_ne ha] at hv
        exact hother _ m₀ a v hp hv (Or.inr ha)
    · rw [Function.update_of_ne hqw] at hq
      exact hother q m a v hq hv (Or.inl hqw)

omit [Std.TransOrd P] [Std.LawfulEqOrd P] in
theorem Held.unfile (h : F.Held all owner) (hown : ∀ v, all[k]? = some v → owner v = p) :
    (F.unfile p k).Held (all.erase k) owner := by
  intro q m a v hq hv
  unfold Filing.unfile at hq
  dsimp only at hq
  by_cases hqp : q = p
  · subst hqp
    rw [Function.update_self] at hq
    obtain ⟨m₀, hm₀, rfl⟩ := Option.map_eq_some_iff.mp hq
    obtain ⟨ha, hv⟩ := BTreeMap.get_erase_eq_some.mp hv
    rw [BTreeMap.get_erase_of_ne ha]
    exact h q m₀ a v hm₀ hv
  · rw [Function.update_of_ne hqp] at hq
    obtain ⟨hall, hqv⟩ := h q m a v hq hv
    refine ⟨?_, hqv⟩
    rw [BTreeMap.get_erase_of_ne]
    · exact hall
    · intro ha
      subst ha
      exact hqp (hqv.symm.trans (hown v hall))

omit [Std.LawfulEqOrd P] [Std.LawfulEqOrd K] [DecidableEq K] in
/-- A parent may enter when what is parked for it is current. -/
theorem Held.enter (h : F.Held all owner)
    (hp : ∀ k w, F.parked.getInner p k = some w → all[k]? = some w ∧ owner w = p) :
    (F.enter p).Held all owner := by
  intro q m a v hq hv
  unfold Filing.enter at hq
  dsimp only at hq
  by_cases hqp : q = p
  · subst hqp
    rw [Function.update_self] at hq
    obtain rfl := Option.some.inj hq
    rw [BTreeMap.get_getD] at hv
    exact hp a v hv
  · rw [Function.update_of_ne hqp] at hq
    exact h q m a v hq hv

omit [Std.TransOrd P] [Std.LawfulEqOrd P] [Std.LawfulEqOrd K] [DecidableEq K] in
theorem Held.leave (h : F.Held all owner) : (F.leave p).Held all owner := by
  intro q m a v hq hv
  unfold Filing.leave at hq
  dsimp only at hq
  by_cases hqp : q = p
  · subst hqp
    rw [Function.update_self] at hq
    cases hq
  · rw [Function.update_of_ne hqp] at hq
    exact h q m a v hq hv

omit [Std.LawfulEqOrd P] [DecidableEq P] [Std.LawfulEqOrd K] [DecidableEq K] in
theorem Held.unpark (h : F.Held all owner) : (F.unpark p).Held all owner := h

omit [Std.LawfulEqOrd P] [Std.LawfulEqOrd K] [DecidableEq K] in
theorem Held.close (h : F.Held all owner) : (F.close p).Held all owner := h.leave.unpark

omit [Std.LawfulEqOrd P] in
theorem Full.file (h : F.Full all owner) : (F.file (owner w) k w).Full (all.insert k w) owner := by
  intro a v m hv hm
  unfold Filing.file at hm
  by_cases ha : a = k
  · subst ha
    rw [BTreeMap.get_insert_self] at hv
    obtain rfl := Option.some.inj hv
    rcases hp : F.known (owner w) with _ | m₀
    · rw [hp] at hm
      exact absurd (hp.symm.trans hm) nofun
    · rw [hp] at hm
      dsimp only at hm
      rw [Function.update_self] at hm
      rw [← Option.some.inj hm, BTreeMap.get_insert_self]
  · rw [BTreeMap.get_insert_of_ne ha] at hv
    rcases hp : F.known (owner w) with _ | m₀
    · rw [hp] at hm
      exact h a v m hv hm
    · rw [hp] at hm
      dsimp only at hm
      by_cases hq : owner v = owner w
      · rw [hq, Function.update_self] at hm
        rw [← Option.some.inj hm, BTreeMap.get_insert_of_ne ha]
        exact h a v m₀ hv (hq ▸ hp)
      · rw [Function.update_of_ne hq] at hm
        exact h a v m hv hm

omit [Std.TransOrd P] [Std.LawfulEqOrd P] in
theorem Full.unfile (h : F.Full all owner) : (F.unfile p k).Full (all.erase k) owner := by
  intro a v m hv hm
  obtain ⟨ha, hv⟩ := BTreeMap.get_erase_eq_some.mp hv
  unfold Filing.unfile at hm
  dsimp only at hm
  by_cases hq : owner v = p
  · rw [hq, Function.update_self] at hm
    obtain ⟨m₀, hm₀, rfl⟩ := Option.map_eq_some_iff.mp hm
    rw [BTreeMap.get_erase_of_ne ha]
    exact h a v m₀ hv (hq ▸ hm₀)
  · rw [Function.update_of_ne hq] at hm
    exact h a v m hv hm

omit [Std.LawfulEqOrd P] [Std.LawfulEqOrd K] [DecidableEq K] in
/-- A parent may enter when all its items are parked. -/
theorem Full.enter (h : F.Full all owner)
    (hp : ∀ k w, all[k]? = some w → owner w = p → F.parked.getInner p k = some w) :
    (F.enter p).Full all owner := by
  intro a v m hv hm
  unfold Filing.enter at hm
  dsimp only at hm
  by_cases hq : owner v = p
  · rw [hq, Function.update_self] at hm
    rw [← Option.some.inj hm, BTreeMap.get_getD]
    exact hp a v hv hq
  · rw [Function.update_of_ne hq] at hm
    exact h a v m hv hm

omit [Std.TransOrd P] [Std.LawfulEqOrd P] [Std.LawfulEqOrd K] [DecidableEq K] in
theorem Full.leave (h : F.Full all owner) : (F.leave p).Full all owner := by
  intro a v m hv hm
  unfold Filing.leave at hm
  dsimp only at hm
  by_cases hq : owner v = p
  · rw [hq, Function.update_self] at hm
    cases hm
  · rw [Function.update_of_ne hq] at hm
    exact h a v m hv hm

omit [Std.LawfulEqOrd P] [Std.LawfulEqOrd K] [DecidableEq K] in
theorem Full.close (h : F.Full all owner) : (F.close p).Full all owner := h.leave

/-! ## Soundness and completeness -/

/-- A new item, or a new version of an item with the same parent, is filed. -/
theorem Sound.file (h : F.Sound all owner) (hown : ∀ v, all[k]? = some v → owner v = owner w) :
    (F.file (owner w) k w).Sound (all.insert k w) owner := by
  intro q a v hv
  rw [entry_file] at hv
  by_cases ha : a = k
  · subst ha
    by_cases hq : q = owner w
    · rw [if_pos ⟨hq, rfl⟩] at hv
      obtain rfl := Option.some.inj hv
      exact ⟨BTreeMap.get_insert_self all a w, hq.symm⟩
    · rw [if_neg fun h => hq h.1] at hv
      obtain ⟨hall, hqv⟩ := h q a v hv
      exact absurd (hqv.symm.trans (hown v hall)) hq
  · rw [if_neg fun h => ha h.2] at hv
    rw [BTreeMap.get_insert_of_ne ha]
    exact h q a v hv

theorem Complete.file (h : F.Complete all owner) :
    (F.file (owner w) k w).Complete (all.insert k w) owner := by
  intro a v hv
  rw [entry_file]
  by_cases ha : a = k
  · subst ha
    rw [BTreeMap.get_insert_self] at hv
    obtain rfl := Option.some.inj hv
    rw [if_pos ⟨rfl, rfl⟩]
  · rw [BTreeMap.get_insert_of_ne ha] at hv
    rw [if_neg fun h => ha h.2]
    exact h a v hv

omit [Std.LawfulEqOrd P] in
/-- An item that is not parked is taken away. -/
theorem Sound.unfile (h : F.Sound all owner) (hF : F.known p = none → F.parked.getInner p k = none)
    (hown : ∀ v, all[k]? = some v → owner v = p) : (F.unfile p k).Sound (all.erase k) owner := by
  intro q a v hv
  rw [entry_unfile hF] at hv
  by_cases ha : a = k
  · subst ha
    by_cases hq : q = p
    · rw [if_pos ⟨hq, rfl⟩] at hv
      cases hv
    · rw [if_neg fun h => hq h.1] at hv
      obtain ⟨hall, hqv⟩ := h q a v hv
      exact absurd (hqv.symm.trans (hown v hall)) hq
  · rw [if_neg fun h => ha h.2] at hv
    rw [BTreeMap.get_erase_of_ne ha]
    exact h q a v hv

omit [Std.LawfulEqOrd P] in
theorem Complete.unfile (h : F.Complete all owner) :
    (F.unfile p k).Complete (all.erase k) owner := by
  intro a v hv
  obtain ⟨ha, hv⟩ := BTreeMap.get_erase_eq_some.mp hv
  rw [entry_unfile_of_ne (Or.inr ha)]
  exact h a v hv

omit [Std.LawfulEqOrd P] [DecidableEq P] [Std.LawfulEqOrd K] [DecidableEq K] in
theorem Sound.congr {F' : Filing P K W} (h : F.Sound all owner)
    (he : ∀ q a, F'.entry q a = F.entry q a) : F'.Sound all owner := by
  intro q a v hv
  rw [he] at hv
  exact h q a v hv

omit [Std.LawfulEqOrd P] [DecidableEq P] [Std.LawfulEqOrd K] [DecidableEq K] in
theorem Complete.congr {F' : Filing P K W} (h : F.Complete all owner)
    (he : ∀ q a, F'.entry q a = F.entry q a) : F'.Complete all owner := by
  intro a v hv
  rw [he]
  exact h a v hv

omit [Std.LawfulEqOrd P] [DecidableEq P] [Std.LawfulEqOrd K] [DecidableEq K] in
/-- Losing entries keeps a filing sound. -/
theorem Sound.of_entries {F' : Filing P K W} (h : F.Sound all owner)
    (he : ∀ q a v, F'.entry q a = some v → F.entry q a = some v) : F'.Sound all owner :=
  fun q a v hv => h q a v (he q a v hv)

omit [Std.LawfulEqOrd P] [Std.LawfulEqOrd K] [DecidableEq K] in
theorem Sound.leave (h : F.Sound all owner) (hF : F.Tidy) (hp : (F.known p).isSome) :
    (F.leave p).Sound all owner := by
  refine h.of_entries fun q a v hv => ?_
  rw [entry_leave hF hp] at hv
  split at hv
  next => cases hv
  next => exact hv

omit [Std.LawfulEqOrd P] [Std.LawfulEqOrd K] [DecidableEq K] in
/-- A parent that leaves without items takes nothing away. -/
theorem Complete.leave (h : F.Complete all owner) (hF : F.Tidy) (hp : (F.known p).isSome)
    (hempty : ∀ k, F.entry p k = none) : (F.leave p).Complete all owner := by
  intro a v hv
  have ha := h a v hv
  rw [entry_leave hF hp, if_neg]
  · exact ha
  · intro hq
    rw [hq, hempty] at ha
    cases ha

omit [Std.LawfulEqOrd K] [DecidableEq K] in
theorem entry_close (hF : F.Tidy) (hp : (F.known p).isSome) :
    (F.close p).entry q a = if q = p then none else F.entry q a := by
  rw [← entry_leave hF hp]
  unfold close unpark leave entry
  by_cases hq : q = p
  · subst hq
    simp [BTreeMap.getInner_erase, hF q a hp]
  · simp [hq, BTreeMap.getInner_erase]

omit [Std.LawfulEqOrd K] [DecidableEq K] in
theorem Tidy.close (hF : F.Tidy) : (F.close p).Tidy := hF.leave.unpark

omit [Std.LawfulEqOrd K] [DecidableEq K] in
theorem Sound.close (h : F.Sound all owner) (hF : F.Tidy) (hp : (F.known p).isSome) :
    (F.close p).Sound all owner := by
  refine h.of_entries fun q a v hv => ?_
  rw [entry_close hF hp] at hv
  split at hv
  next => cases hv
  next => exact hv

omit [Std.LawfulEqOrd K] [DecidableEq K] in
theorem Complete.close (h : F.Complete all owner) (hF : F.Tidy) (hp : (F.known p).isSome)
    (hempty : ∀ k, F.entry p k = none) : (F.close p).Complete all owner := by
  intro a v hv
  have ha := h a v hv
  rw [entry_close hF hp, if_neg]
  · exact ha
  · intro hq
    rw [hq, hempty] at ha
    cases ha

/-! ## Items that go from everywhere -/

omit [Std.TransOrd P] [Std.LawfulEqOrd P] [DecidableEq P] [Std.LawfulEqOrd K] [DecidableEq K] in
theorem Held.discard {F' : Filing P K W} {all' : BTreeMap K W} {keys : K → Prop}
    [DecidablePred keys] (h : F.Held all owner)
    (he : ∀ q m', F'.known q = some m' → ∃ m, F.known q = some m ∧
      ∀ a, m'[a]? = if keys a then none else m[a]?)
    (hall : ∀ a, all'[a]? = if keys a then none else all[a]?) : F'.Held all' owner := by
  intro q m' a v hq hv
  obtain ⟨m, hm, hm'⟩ := he q m' hq
  rw [hm'] at hv
  rw [hall]
  split at hv
  next => cases hv
  next ha =>
    rw [if_neg ha]
    exact h q m a v hm hv

omit [Std.TransOrd P] [Std.LawfulEqOrd P] [DecidableEq P] [Std.LawfulEqOrd K] [DecidableEq K] in
theorem Full.discard {F' : Filing P K W} {all' : BTreeMap K W} {keys : K → Prop}
    [DecidablePred keys] (h : F.Full all owner)
    (he : ∀ q m', F'.known q = some m' → ∃ m, F.known q = some m ∧
      ∀ a, m'[a]? = if keys a then none else m[a]?)
    (hall : ∀ a, all'[a]? = if keys a then none else all[a]?) : F'.Full all' owner := by
  intro a v m' hv hm
  obtain ⟨m, hm, hm'⟩ := he _ m' hm
  rw [hall] at hv
  rw [hm']
  split at hv
  next => cases hv
  next ha =>
    rw [if_neg ha]
    exact h a v m hv hm

omit [Std.LawfulEqOrd P] [DecidableEq P] [Std.LawfulEqOrd K] [DecidableEq K] in
theorem Sound.discard {F' : Filing P K W} {all' : BTreeMap K W} {keys : K → Prop}
    [DecidablePred keys] (h : F.Sound all owner)
    (he : ∀ q a, F'.entry q a = if keys a then none else F.entry q a)
    (hall : ∀ a, all'[a]? = if keys a then none else all[a]?) : F'.Sound all' owner := by
  intro q a v hv
  rw [he] at hv
  rw [hall]
  split at hv
  next => cases hv
  next ha =>
    rw [if_neg ha]
    exact h q a v hv

omit [Std.LawfulEqOrd P] [DecidableEq P] [Std.LawfulEqOrd K] [DecidableEq K] in
theorem Complete.discard {F' : Filing P K W} {all' : BTreeMap K W} {keys : K → Prop}
    [DecidablePred keys] (h : F.Complete all owner)
    (he : ∀ q a, F'.entry q a = if keys a then none else F.entry q a)
    (hall : ∀ a, all'[a]? = if keys a then none else all[a]?) : F'.Complete all' owner := by
  intro a v hv
  rw [hall] at hv
  rw [he]
  split at hv
  next => cases hv
  next ha =>
    rw [if_neg ha]
    exact h a v hv

end Filing
