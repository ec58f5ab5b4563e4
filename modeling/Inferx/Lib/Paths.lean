import Inferx.Lib.Strs

/-!
# Paths and a tree of files

A path is read one segment after the other; empty segments and `"."` stay where they are
and `".."` steps back. The operations look a path up in the tree that way. Whatever they
write or remove stands at the place where the path leads (`settle`) or below it, and making
directories changes no file.
-/

namespace Paths

/-- A place in the tree, by the names that lead to it. -/
abbrev Place := List String

/-- What stands at a place. -/
inductive Node where
  | dir
  | file (content : String)
  deriving DecidableEq

/-- What stands where. -/
abbrev Tree := Place → Option Node

/-! ## Paths -/

/-- Is the segment one that is looked up? -/
def isStep (seg : String) : Bool := seg != "" && seg != "."

/-- The segments of a path that are looked up. -/
def segments (path : List Char) : List String :=
  ((path.splitOn '/').map String.ofList).filter isStep

/-- Where a segment leads. -/
def step (place : Place) (seg : String) : Place :=
  if seg = ".." then place.dropLast else place ++ [seg]

/-- Where segments lead. -/
def settle (place : Place) (segs : List String) : Place := segs.foldl step place

/-- `Path::join`: a path from the root replaces what it is joined to. -/
def join (p q : String) : String :=
  if q.toList.head? = some '/' then q
  else if p = "" ∨ p.toList.getLast? = some '/' then p ++ q
  else p ++ "/" ++ q

/-- The place that a path leads to. -/
def placeOf (path : String) : Place := settle [] (segments path.toList)

/-! ## The tree -/

/-- The content of the file at a place. -/
def Tree.content (t : Tree) (p : Place) : Option String :=
  match t p with
  | some (.file c) => some c
  | _ => none

def Tree.set (t : Tree) (p : Place) (n : Option Node) : Tree := fun q => if q = p then n else t q

/-- Follow segments; each but the last is to be a directory. -/
def Tree.reach (t : Tree) (place : Place) : List String → Option Place
  | [] => some place
  | seg :: segs => if t place = some .dir then t.reach (step place seg) segs else none

/-- The place of a path that can be followed. -/
def Tree.find (t : Tree) (path : String) : Option Place := t.reach [] (segments path.toList)

/-- `Path::exists`. -/
def Tree.exists' (t : Tree) (path : String) : Bool :=
  match t.find path with
  | some p => (t p).isSome
  | none => false

/-- The directories on the way that are missing, until a file is met. -/
def Tree.makeDirs (t : Tree) (place : Place) : List String → Tree × Bool
  | [] => (t, true)
  | seg :: segs =>
    match t (step place seg) with
    | some .dir => t.makeDirs (step place seg) segs
    | some (.file _) => (t, false)
    | none => (t.set (step place seg) (some .dir)).makeDirs (step place seg) segs

/-- `fs::create_dir_all`, with whether it succeeded. -/
def Tree.createDirAll (t : Tree) (path : String) : Tree × Bool :=
  t.makeDirs [] (segments path.toList)

/-- `fs::write`. -/
def Tree.write (t : Tree) (path content : String) : Tree :=
  match t.find path with
  | some p => if t p = some .dir then t else t.set p (some (.file content))
  | none => t

/-- `fs::read`, for a file. -/
def Tree.read (t : Tree) (path : String) : Option String := (t.find path).bind t.content

/-- `fs::rename` of a file. -/
def Tree.rename (t : Tree) (src dst : String) : Tree :=
  match t.find src, t.find dst with
  | some p, some q =>
    match t p with
    | some (.file c) =>
      if t q = some .dir ∨ p = q then t else (t.set q (some (.file c))).set p none
    | _ => t
  | _, _ => t

/-- `fs::copy`. -/
def Tree.copy (t : Tree) (src dst : String) : Tree :=
  match t.read src with
  | some c => t.write dst c
  | none => t

/-- Does a path end in a segment that is no name? A directory cannot be removed under such a
path, only what it holds. -/
def endsInDots (path : String) : Bool :=
  match (path.toList.splitOn '/').getLast? with
  | some seg => seg == ['.'] || seg == ['.', '.']
  | none => false

/-- `fs::remove_dir_all`. -/
def Tree.removeDirAll (t : Tree) (path : String) : Tree :=
  match t.find path with
  | some p =>
    if t p = some .dir then
      fun q => if p <+: q ∧ ¬(q = p ∧ endsInDots path = true) then none else t q
    else t
  | none => t

/-! ## Where paths lead -/

theorem segments_append (p q : List Char) :
    segments (p ++ '/' :: q) = segments p ++ segments q := by
  unfold segments
  rw [List.splitOn_append_cons_self, List.map_append, List.filter_append]

theorem segments_join {p q : String} (hq : q.toList.head? ≠ some '/') :
    segments (join p q).toList = segments p.toList ++ segments q.toList := by
  unfold join
  rw [if_neg hq]
  split
  next h =>
    rw [String.toList_append]
    rcases h with rfl | h
    · rfl
    · obtain ⟨p', hp⟩ := List.getLast?_eq_some_iff.mp h
      rw [hp, List.append_assoc, List.singleton_append, segments_append, segments_append]
      simp [segments, isStep]
  next h =>
    rw [String.toList_append, String.toList_append, List.append_assoc]
    exact segments_append ..

theorem settle_append (place : Place) (s₁ s₂ : List String) :
    settle place (s₁ ++ s₂) = settle (settle place s₁) s₂ := List.foldl_append

/-- A name leads one place down. -/
theorem segments_name {s : String} (hslash : '/' ∉ s.toList) (hstep : isStep s = true) :
    segments s.toList = [s] := by
  unfold segments
  rw [List.splitOn_eq_singleton hslash, List.map_singleton, String.ofList_toList,
    List.filter_singleton, hstep, cond_true]

theorem step_name {place : Place} {s : String} (h : s ≠ "..") : step place s = place ++ [s] := if_neg h

theorem placeOf_join {p q : String} (hq : q.toList.head? ≠ some '/') :
    placeOf (join p q) = settle (placeOf p) (segments q.toList) := by
  unfold placeOf
  rw [segments_join hq, settle_append]

/-- A path with one more name leads one place further down. -/
theorem placeOf_join_name {p s : String} (hslash : '/' ∉ s.toList) (hstep : isStep s = true)
    (hdots : s ≠ "..") : placeOf (join p s) = placeOf p ++ [s] := by
  have hhead : s.toList.head? ≠ some '/' := fun h => hslash (List.mem_of_mem_head? h)
  rw [placeOf_join hhead, segments_name hslash hstep]
  exact step_name hdots

/-- What segments come to when each `".."` is cancelled against the name before it: how many
of them climb, and the names after these. -/
def cancel (segs : List String) : ℕ × List String :=
  segs.foldl (fun c seg =>
    if seg = ".." then if c.2 = [] then (c.1 + 1, []) else (c.1, c.2.dropLast)
    else (c.1, c.2 ++ [seg])) (0, [])

/-- Segments lead up as far as they climb, and then down along the names. -/
theorem settle_cancel (place : Place) (segs : List String) :
    settle place segs = place.take (place.length - (cancel segs).1) ++ (cancel segs).2 := by
  induction segs using List.reverseRecOn with
  | nil => simp [settle, cancel]
  | append_singleton segs seg ih =>
    rw [settle_append, ih]
    simp only [settle, cancel, List.foldl_append, List.foldl_cons, List.foldl_nil, step]
    split
    · split
      next hnil =>
        rw [hnil, List.append_nil, List.append_nil, List.dropLast_eq_take, List.take_take,
          List.length_take]
        congr 1
        omega
      next hne => exact List.dropLast_append_of_ne_nil hne
    · exact List.append_assoc ..

/-! ## Numbers as names -/

/-- A number leads one place down. -/
theorem placeOf_join_number (p : String) (z : ℤ) :
    placeOf (join p (toString z)) = placeOf p ++ [toString z] := by
  have hdot : '.' ∉ (toString z).toList := Strs.not_mem_toString (by decide)
  refine placeOf_join_name (Strs.not_mem_toString (by decide)) ?_ fun h => hdot (h ▸ by decide)
  unfold isStep
  rw [Bool.and_eq_true, bne_iff_ne, bne_iff_ne]
  exact ⟨Strs.toString_ne_empty z, fun h => hdot (h ▸ by decide)⟩

/-! ## What the operations change -/

namespace Tree

variable {t : Tree}

theorem content_set_of_ne {p q : Place} {n : Option Node} (h : q ≠ p) :
    (t.set p n).content q = t.content q := by
  unfold content set
  rw [if_neg h]

theorem reach_eq {place p : Place} {segs : List String} (h : t.reach place segs = some p) :
    p = settle place segs := by
  induction segs generalizing place with
  | nil => exact (Option.some.inj h).symm
  | cons seg segs ih =>
    unfold reach at h
    split at h
    · exact ih h
    · cases h

theorem find_eq {path : String} {p : Place} (h : t.find path = some p) : p = placeOf path := reach_eq h

/-- Directories are made where nothing stood. -/
theorem content_makeDirs (t : Tree) (place q : Place) (segs : List String) :
    (t.makeDirs place segs).1.content q = t.content q := by
  induction segs generalizing t place with
  | nil => rfl
  | cons seg segs ih =>
    unfold makeDirs
    split
    · exact ih t _
    · rfl
    next hnone =>
      rw [ih]
      rcases eq_or_ne q (step place seg) with rfl | hne
      · simp [content, set, hnone]
      · exact content_set_of_ne hne

theorem content_createDirAll (t : Tree) (path : String) (q : Place) :
    (t.createDirAll path).1.content q = t.content q := content_makeDirs ..

theorem content_write {path content : String} {q : Place} (h : q ≠ placeOf path) :
    (t.write path content).content q = t.content q := by
  unfold write
  split
  next p hfind =>
    split
    · rfl
    · exact content_set_of_ne (find_eq hfind ▸ h)
  next => rfl

theorem content_rename {src dst : String} {q : Place} (hsrc : q ≠ placeOf src)
    (hdst : q ≠ placeOf dst) : (t.rename src dst).content q = t.content q := by
  unfold rename
  split
  next p r hp hr =>
    split
    · split
      · rfl
      · rw [content_set_of_ne (find_eq hp ▸ hsrc), content_set_of_ne (find_eq hr ▸ hdst)]
    · rfl
  next => rfl

theorem content_copy {src dst : String} {q : Place} (h : q ≠ placeOf dst) :
    (t.copy src dst).content q = t.content q := by
  unfold copy
  split
  · exact content_write h
  · rfl

theorem content_removeDirAll {path : String} {q : Place} (h : ¬ placeOf path <+: q) :
    (t.removeDirAll path).content q = t.content q := by
  unfold removeDirAll
  split
  next p hfind =>
    split
    · have hnot : ¬(p <+: q ∧ ¬(q = p ∧ endsInDots path = true)) := fun hand =>
        h (find_eq hfind ▸ hand.1)
      simp only [content, if_neg hnot]
    · rfl
  next => rfl

end Tree

end Paths
