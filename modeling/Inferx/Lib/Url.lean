import Mathlib.Data.List.TakeWhile

/-!
# The path of a URL

How the path of an `http` URL is read: tabs and line breaks are dropped, `?` and `#` end
it, a backslash is a slash, segments are percent-encoded, and a dot segment is left out or
takes the one before it away. A text is read as written, which means as its percent-encoding,
exactly if none of this happens in it (`path_eq_iff`): whatever is dropped makes the path
shorter, and nothing makes up for it.
-/

namespace Url

/-! ## Percent-encoding -/

/-- The path percent-encode set. -/
def inPathSet (c : Char) : Bool :=
  decide (c.toNat ≤ 0x1F) || decide (0x7E < c.toNat) ||
    [0x20, 0x22, 0x23, 0x3C, 0x3E, 0x3F, 0x5E, 0x60, 0x7B, 0x7D].contains c.toNat

def percentByte (b : UInt8) : List Char :=
  ['%', (Nat.digitChar (b.toNat / 16)).toUpper, (Nat.digitChar (b.toNat % 16)).toUpper]

def encodeChar (c : Char) : List Char :=
  if inPathSet c then (String.utf8EncodeChar c).flatMap percentByte else [c]

def encode (s : List Char) : List Char := s.flatMap encodeChar

/-! ## Segments -/

/-- `.` and its spelling with a percent sign. -/
def isSingleDot (seg : List Char) : Bool :=
  [['.'], ['%', '2', 'e']].contains (seg.map Char.toLower)

/-- `..` and its spellings with percent signs. -/
def isDoubleDot (seg : List Char) : Bool :=
  [['.', '.'], ['.', '%', '2', 'e'], ['%', '2', 'e', '.'], ['%', '2', 'e', '%', '2', 'e']].contains
    (seg.map Char.toLower)

def isDot (seg : List Char) : Bool := isSingleDot seg || isDoubleDot seg

/-- The path state: the segments behind the path that has been read. -/
def walk : List (List Char) → List (List Char) → List (List Char)
  | path, [] => path
  | path, seg :: segs =>
    let path' := if isDoubleDot seg then path.dropLast else path
    if isDot seg then
      -- the slash in front of a last dot segment stays
      if segs.isEmpty then path' ++ [[]] else walk path' segs
    else walk (path ++ [encode seg]) segs

def serialize (path : List (List Char)) : List Char := path.flatMap fun seg => '/' :: seg

def isTabOrNewline (c : Char) : Bool := c == '\t' || c == '\n' || c == '\r'

def endsPath (c : Char) : Bool := c == '?' || c == '#'

def isSlash (c : Char) : Bool := c == '/' || c == '\\'

/-- What is left of a text when it is read as a path. -/
def kept (s : List Char) : List Char :=
  (s.filter fun c => !isTabOrNewline c).takeWhile fun c => !endsPath c

/-- The path of a URL with this text behind the slash after the host. -/
def path (s : List Char) : List Char := serialize (walk [] ((kept s).splitOnP isSlash))

/-- A text that is read as written. -/
def Plain (s : List Char) : Prop :=
  (∀ c ∈ s, isTabOrNewline c = false ∧ endsPath c = false ∧ c ≠ '\\') ∧
    ∀ seg ∈ s.splitOn '/', isDot seg = false

/-! ## Lengths -/

theorem encode_cons (c : Char) (s : List Char) : encode (c :: s) = encodeChar c ++ encode s :=
  List.flatMap_cons

theorem encode_append (s t : List Char) : encode (s ++ t) = encode s ++ encode t :=
  List.flatMap_append

theorem encodeChar_ne_nil (c : Char) : encodeChar c ≠ [] := by
  unfold encodeChar
  split
  next =>
    have hne : String.utf8EncodeChar c ≠ [] := String.utf8EncodeChar_ne_nil
    rcases hbytes : String.utf8EncodeChar c with _ | ⟨b, bytes⟩
    · exact absurd hbytes hne
    · rw [List.flatMap_cons]
      exact List.append_ne_nil_of_left_ne_nil (List.cons_ne_nil _ _) _
  next => exact List.cons_ne_nil _ _

theorem encodeChar_slash {c : Char} (h : isSlash c = true) : encodeChar c = [c] := by
  unfold isSlash at h
  rcases Bool.or_eq_true_iff.mp h with h | h
  · rw [eq_of_beq h]
    decide
  · rw [eq_of_beq h]
    decide

/-- What is dropped makes the encoding shorter. -/
theorem length_encode_sublist {s t : List Char} (h : s.Sublist t) :
    (encode s).length ≤ (encode t).length ∧
      ((encode s).length = (encode t).length → s = t) := by
  induction h with
  | slnil => exact ⟨Nat.le_refl _, fun _ => rfl⟩
  | @cons s t c _ ih =>
    have hpos := List.length_pos_iff.mpr (encodeChar_ne_nil c)
    rw [encode_cons, List.length_append]
    exact ⟨by omega, fun heq => by omega⟩
  | @cons_cons s t c _ ih =>
    rw [encode_cons, encode_cons, List.length_append, List.length_append]
    exact ⟨by omega, fun heq => by rw [ih.2 (by omega)]⟩

theorem kept_sublist (s : List Char) : (kept s).Sublist s :=
  (List.takeWhile_sublist _).trans List.filter_sublist

theorem serialize_append (p q : List (List Char)) :
    serialize (p ++ q) = serialize p ++ serialize q :=
  List.flatMap_append

theorem length_serialize_dropLast (p : List (List Char)) :
    (serialize p.dropLast).length ≤ (serialize p).length := by
  rcases List.eq_nil_or_concat p with rfl | ⟨q, seg, rfl⟩
  · exact Nat.le_refl _
  · rw [List.concat_eq_append, List.dropLast_concat, serialize_append, List.length_append]
    exact Nat.le_add_right _ _

/-- With each slash, and each backslash, a segment ends. -/
theorem serialize_splitOnP (s : List Char) : serialize ((s.splitOnP isSlash).map encode) =
    '/' :: encode (s.map fun c => if isSlash c then '/' else c) := by
  induction s with
  | nil => rfl
  | cons c s ih =>
    rw [List.splitOnP_cons_eq_if_modifyHead, List.map_cons, encode_cons]
    by_cases hc : isSlash c = true
    · rw [if_pos hc, if_pos hc, List.map_cons]
      show '/' :: (encode [] ++ serialize ((s.splitOnP isSlash).map encode)) = _
      rw [ih]
      rfl
    · rw [if_neg hc, if_neg hc]
      obtain ⟨seg, segs, hsegs⟩ := List.exists_cons_of_ne_nil (List.splitOnP_ne_nil isSlash s)
      rw [hsegs] at ih ⊢
      have htail : encode seg ++ serialize (segs.map encode) = encode _ := (List.cons.inj ih).2
      rw [List.modifyHead_cons, List.map_cons]
      show '/' :: (encode (c :: seg) ++ serialize (segs.map encode)) = _
      rw [encode_cons, List.append_assoc, htail]

theorem length_encode_slashes (s : List Char) :
    (encode (s.map fun c => if isSlash c then '/' else c)).length = (encode s).length := by
  induction s with
  | nil => rfl
  | cons c s ih =>
    rw [List.map_cons, encode_cons, encode_cons, List.length_append, List.length_append, ih]
    split
    next hc => rw [encodeChar_slash hc, encodeChar_slash (by decide : isSlash '/' = true)]; rfl
    next => rfl

/-- A dot segment makes the path shorter. -/
theorem length_walk (p segs : List (List Char)) :
    (serialize (walk p segs)).length ≤ (serialize p).length + (serialize (segs.map encode)).length ∧
      ((∃ seg ∈ segs, isDot seg = true) →
        (serialize (walk p segs)).length < (serialize p).length + (serialize
          (segs.map encode)).length) := by
  induction segs generalizing p with
  | nil => exact ⟨Nat.le_add_right _ _, fun ⟨_, hmem, _⟩ => nomatch hmem⟩
  | cons seg segs ih =>
    have hcons : (serialize ((seg :: segs).map encode)).length =
        (encode seg).length + 1 + (serialize (segs.map encode)).length := by
      show ('/' :: (encode seg ++ serialize (segs.map encode))).length = _
      rw [List.length_cons, List.length_append]
      omega
    rw [hcons]
    unfold walk
    dsimp only
    split
    next hdot =>
      have hp' : (serialize (if isDoubleDot seg then p.dropLast else p)).length ≤
          (serialize p).length := by
        split
        next => exact length_serialize_dropLast p
        next => exact Nat.le_refl _
      have hseg : 0 < (encode seg).length := by
        cases seg with
        | nil => exact absurd hdot (by decide)
        | cons c seg =>
          rw [encode_cons, List.length_append]
          exact Nat.add_pos_left (List.length_pos_iff.mpr (encodeChar_ne_nil c)) _
      split
      next =>
        rw [serialize_append, List.length_append]
        have hone : (serialize [[]]).length = 1 := rfl
        omega
      next =>
        have hrest := (ih (if isDoubleDot seg then p.dropLast else p)).1
        omega
    next hdot =>
      have hrest := ih (p ++ [encode seg])
      have hp : (serialize (p ++ [encode seg])).length
        = (serialize p).length + ((encode seg).length + 1) := by
        rw [serialize_append, List.length_append]
        congr 1
        exact congrArg List.length (List.append_nil ('/' :: encode seg))
      rw [hp] at hrest
      refine ⟨by omega, ?_⟩
      rintro ⟨seg', hmem, hdot'⟩
      rcases List.mem_cons.mp hmem with rfl | hmem
      · exact absurd hdot' hdot
      · have hlt := hrest.2 ⟨seg', hmem, hdot'⟩
        omega

theorem walk_of_plain {p segs : List (List Char)} (h : ∀ seg ∈ segs, isDot seg = false) :
    walk p segs = p ++ segs.map encode := by
  induction segs generalizing p with
  | nil => exact (List.append_nil p).symm
  | cons seg segs ih =>
    unfold walk
    dsimp only
    rw [h seg List.mem_cons_self, if_neg Bool.false_ne_true,
      ih fun seg' hmem => h seg' (List.mem_cons_of_mem seg hmem), List.map_cons, List.append_assoc,
      List.singleton_append]

/-! ## The law -/

theorem backslash_not_mem_encode {s : List Char} (h : '\\' ∉ s) : '\\' ∉ encode s := by
  intro hmem
  obtain ⟨c, hc, hmem⟩ := List.mem_flatMap.mp hmem
  unfold encodeChar at hmem
  split at hmem
  next =>
    obtain ⟨b, -, hmem⟩ := List.mem_flatMap.mp hmem
    have hdigit : ∀ n, n < 16 → (Nat.digitChar n).toUpper ≠ '\\' := by decide
    have hlow := hdigit (b.toNat % 16) (Nat.mod_lt _ (by decide))
    have hhigh := hdigit (b.toNat / 16) (Nat.div_lt_of_lt_mul b.toNat_lt)
    rcases List.mem_cons.mp hmem with h' | hmem
    · exact absurd h' (by decide)
    · rcases List.mem_cons.mp hmem with h' | hmem
      · exact hhigh h'.symm
      · exact hlow (List.mem_singleton.mp hmem).symm
  next =>
    rw [List.mem_singleton.mp hmem] at h
    exact h hc

theorem splitOnP_isSlash {s : List Char} (h : '\\' ∉ s) : s.splitOnP isSlash = s.splitOn '/' := by
  rw [List.splitOn_eq_splitOnP]
  induction s with
  | nil => rfl
  | cons c s ih =>
    rw [List.splitOnP_cons_eq_if_modifyHead, List.splitOnP_cons_eq_if_modifyHead,
      ih fun hmem => h (List.mem_cons_of_mem c hmem)]
    have hc : isSlash c = (c == '/') := by
      have hne : (c == '\\') = false := by
        rw [beq_eq_false_iff_ne]
        rintro rfl
        exact h List.mem_cons_self
      unfold isSlash
      rw [hne, Bool.or_false]
    rw [hc]

/-- Writing slashes for backslashes is seen. -/
theorem encode_slashes_iff {s : List Char} :
    encode (s.map fun c => if isSlash c then '/' else c) = encode s ↔ '\\' ∉ s := by
  constructor
  · intro h hmem
    have hno : '\\' ∉ encode (s.map fun c => if isSlash c then '/' else c) := by
      refine backslash_not_mem_encode fun hmem => ?_
      obtain ⟨c, -, hc⟩ := List.mem_map.mp hmem
      split at hc
      next => exact absurd hc (by decide)
      next hnot =>
        rw [hc] at hnot
        exact hnot rfl
    rw [h] at hno
    exact hno (List.mem_flatMap.mpr ⟨'\\', hmem, by decide⟩)
  · intro h
    refine congrArg encode ((List.map_congr_left fun c hc => ?_).trans (List.map_id s))
    split
    next hslash =>
      rcases Bool.or_eq_true_iff.mp hslash with heq | heq
      · exact (eq_of_beq heq).symm
      · rw [eq_of_beq heq] at hc
        exact absurd hc h
    next => rfl

theorem kept_eq_self_iff {s : List Char} :
    kept s = s ↔ ∀ c ∈ s, isTabOrNewline c = false ∧ endsPath c = false := by
  constructor
  · intro h
    have hfilter : s.filter (fun c => !isTabOrNewline c) = s := by
      refine List.filter_sublist.eq_of_length_le ?_
      have htake := (List.takeWhile_sublist (fun c => !endsPath c)
        (l := s.filter fun c => !isTabOrNewline c)).length_le
      have hlen := congrArg List.length h
      unfold kept at hlen
      omega
    have htake : s.takeWhile (fun c => !endsPath c) = s := by
      unfold kept at h
      rwa [hfilter] at h
    intro c hc
    constructor
    · simpa using List.filter_eq_self.mp hfilter c hc
    · simpa using List.takeWhile_eq_self_iff.mp htake c hc
  · intro h
    unfold kept
    rw [List.filter_eq_self.mpr fun c hc => by rw [(h c hc).1]; rfl,
      List.takeWhile_eq_self_iff.mpr fun c hc => by rw [(h c hc).2]; rfl]

/-- A path is not longer than what is kept of its text, and shorter with a dot segment. -/
theorem length_path (s : List Char) : (path s).length ≤ (encode (kept s)).length + 1 ∧
    ((∃ seg ∈ (kept s).splitOnP isSlash, isDot seg = true) →
      (path s).length < (encode (kept s)).length + 1) := by
  have hwalk := length_walk [] ((kept s).splitOnP isSlash)
  rw [serialize_splitOnP, List.length_cons, length_encode_slashes] at hwalk
  have hnil : (serialize []).length = 0 := rfl
  rw [hnil, Nat.zero_add] at hwalk
  exact hwalk

theorem path_of_no_dots {s : List Char} (hkept : kept s = s)
    (hdots : ∀ seg ∈ s.splitOnP isSlash, isDot seg = false) :
    path s = '/' :: encode (s.map fun c => if isSlash c then '/' else c) := by
  unfold path
  rw [hkept, walk_of_plain hdots, List.nil_append, serialize_splitOnP]

/-- **Read as written.** The path of a text is its percent-encoding exactly if the text is plain. -/
theorem path_eq_iff {s : List Char} : path s = '/' :: encode s ↔ Plain s := by
  constructor
  · intro h
    have hlen := length_path s
    have hsub := length_encode_sublist (kept_sublist s)
    rw [h, List.length_cons] at hlen
    have hkept : kept s = s := hsub.2 (by omega)
    have hdots : ∀ seg ∈ s.splitOnP isSlash, isDot seg = false := by
      intro seg hseg
      refine Bool.eq_false_iff.mpr fun hdot => ?_
      have hlt := hlen.2 ⟨seg, hkept.symm ▸ hseg, hdot⟩
      rw [hkept] at hlt
      exact absurd hlt (Nat.lt_irrefl _)
    have hback : '\\' ∉ s :=
      encode_slashes_iff.mp (List.cons.inj ((path_of_no_dots hkept hdots).symm.trans h)).2
    have hchars := kept_eq_self_iff.mp hkept
    refine ⟨fun c hc => ⟨(hchars c hc).1, (hchars c hc).2, fun hcb => hback (hcb ▸ hc)⟩, ?_⟩
    rwa [← splitOnP_isSlash hback]
  · rintro ⟨hchars, hdots⟩
    have hback : '\\' ∉ s := fun hmem => (hchars _ hmem).2.2 rfl
    have hkept : kept s = s :=
      kept_eq_self_iff.mpr fun c hc => ⟨(hchars c hc).1, (hchars c hc).2.1⟩
    rw [path_of_no_dots hkept (by rwa [splitOnP_isSlash hback]), encode_slashes_iff.mpr hback]

end Url
