import Inferx.Lib.Paths
import Inferx.Metastore.Scoping

/-!
# Storage of skills and knowledge bases

A skill keeps its prefix, and a knowledge base its prompt, in a directory that is named
`tenant.namespace.name` under the root of its kind. Each of the three may hold dots, and the
name of a skill is a segment of a request path after decoding, so that it may hold slashes
too. What an operation changes stands below the directory of its owner (`run_content`);
whether that is far from the directory of another owner is a matter of the two names.
-/

namespace Inferx.Gateway.Storage

open Paths Metastore

/-- What is stored. -/
inductive Kind where
  | skill
  | kb
  deriving DecidableEq

/-- `SKILLS_ROOT_DIR` and `KB_DIR`. -/
def Kind.rootDir : Kind → String
  | .skill => "/opt/inferx/skills"
  | .kb => "/opt/inferx/kb"

/-- The names that lead to the root of a kind. -/
def Kind.rootNames : Kind → List String
  | .skill => ["opt", "inferx", "skills"]
  | .kb => ["opt", "inferx", "kb"]

/-- `SKILL_FILE_NAME` and `KB_FILE_NAME`. -/
def Kind.fileName : Kind → String
  | .skill => "skill.data"
  | .kb => "kb.data"

/-- Names that requests come with. That of a skill is a segment of a path, which is not
empty, and is entered in the database, which takes no NUL. -/
def Kind.Accepts : Kind → String → Prop
  | .skill, name => name ≠ "" ∧ '\x00' ∉ name.toList
  | .kb, name => validateName name = true

/-- `format!("{}.{}.{}", tenant, namespace, name)` -/
def joinedName (tenant nameSpace name : String) : String := tenant ++ "." ++ nameSpace ++ "." ++ name

/-! ## Paths -/

def Kind.rootPath (k : Kind) (tenant nameSpace name : String) : String :=
  join k.rootDir (joinedName tenant nameSpace name)

def Kind.versionDirPath (k : Kind) (tenant nameSpace name : String) (version : ℤ) : String :=
  join (k.rootPath tenant nameSpace name) (toString version)

def Kind.versionFilePath (k : Kind) (tenant nameSpace name : String) (version : ℤ) : String :=
  join (k.versionDirPath tenant nameSpace name version) k.fileName

/-- `skill_root_path`. -/
def skillRootPath := Kind.rootPath .skill

/-- `skill_version_dir_path`. -/
def skillVersionDirPath := Kind.versionDirPath .skill

/-- `skill_file_path`. -/
def skillFilePath := Kind.versionFilePath .skill

/-- `kb_func_root_path`. -/
def kbFuncRootPath := Kind.rootPath .kb

/-- `kb_version_dir_path`. -/
def kbVersionDirPath := Kind.versionDirPath .kb

/-- `kb_version_file_path`. -/
def kbVersionFilePath := Kind.versionFilePath .kb

/-- `kb_stage_file_path`. -/
def kbStageFilePath (tenant nameSpace name : String) : String :=
  join (kbFuncRootPath tenant nameSpace name) Kind.kb.fileName

/-! ## Operations -/

/-- `write_skill_prefix`. -/
def writeSkillPrefix (ownerTenant ownerNamespace skillname : String) (version : ℤ)
    (skillPrefix : String) (t : Tree) : Tree :=
  match t.createDirAll (skillVersionDirPath ownerTenant ownerNamespace skillname version) with
  | (t, true) => t.write (skillFilePath ownerTenant ownerNamespace skillname version) skillPrefix
  | (t, false) => t

/-- `remove_skill_storage`. -/
def removeSkillStorage (ownerTenant ownerNamespace skillname : String) (t : Tree) : Tree :=
  if t.exists' (skillRootPath ownerTenant ownerNamespace skillname) then
    t.removeDirAll (skillRootPath ownerTenant ownerNamespace skillname)
  else t

/-- `prepare_kb_stage_promotion`. -/
def prepareKbStagePromotion (tenant nameSpace name : String) (version : ℤ) (t : Tree) : Tree :=
  -- `ensure_kb_file_readable`
  if (t.read (kbStageFilePath tenant nameSpace name)).isSome then
    match t.createDirAll (kbVersionDirPath tenant nameSpace name version) with
    | (t, true) => t.rename (kbStageFilePath tenant nameSpace name)
        (kbVersionFilePath tenant nameSpace name version)
    | (t, false) => t
  else t

/-- `rollback_kb_stage_promotion`. The version directory, which is removed again when it is
empty, holds no file. -/
def rollbackKbStagePromotion (tenant nameSpace name : String) (version : ℤ) (t : Tree) : Tree :=
  if t.exists' (kbVersionFilePath tenant nameSpace name version) then
    (t.createDirAll (kbFuncRootPath tenant nameSpace name)).1.rename
      (kbVersionFilePath tenant nameSpace name version) (kbStageFilePath tenant nameSpace name)
  else t

/-- `prepare_kb_version_copy`. -/
def prepareKbVersionCopy (tenant nameSpace name : String) (oldVersion newVersion : ℤ) (t : Tree) :
    Tree :=
  if (t.read (kbVersionFilePath tenant nameSpace name oldVersion)).isSome then
    match t.createDirAll (kbVersionDirPath tenant nameSpace name newVersion) with
    | (t, true) => t.copy (kbVersionFilePath tenant nameSpace name oldVersion)
        (kbVersionFilePath tenant nameSpace name newVersion)
    | (t, false) => t
  else t

/-- `cleanup_kb_version_dir`, which `RemoveFunc` does too. -/
def cleanupKbVersionDir (tenant nameSpace name : String) (version : ℤ) (t : Tree) : Tree :=
  t.removeDirAll (kbVersionDirPath tenant nameSpace name version)

/-- What is done with the storage of a kind. -/
inductive Op : Kind → Type where
  | create (version : ℤ) (skillPrefix : String) : Op .skill
  | delete : Op .skill
  | promote (version : ℤ) : Op .kb
  | rollback (version : ℤ) : Op .kb
  | copy (oldVersion newVersion : ℤ) : Op .kb
  | cleanup (version : ℤ) : Op .kb

/-- Whose storage it is. -/
structure Owner where
  kind : Kind
  tenant : String
  nameSpace : String
  name : String
  validTenant : validateName tenant = true
  validNamespace : validateName nameSpace = true
  accepted : kind.Accepts name

namespace Owner

def joined (o : Owner) : String := joinedName o.tenant o.nameSpace o.name

/-- The directory of an owner, where the file system finds it. -/
def dir (o : Owner) : Place := placeOf (o.kind.rootPath o.tenant o.nameSpace o.name)

/-- An operation on the storage of an owner. -/
def run (o : Owner) : Op o.kind → Tree → Tree :=
  match o.kind with
  | .skill => fun
    | .create version skillPrefix => writeSkillPrefix o.tenant o.nameSpace o.name version skillPrefix
    | .delete => removeSkillStorage o.tenant o.nameSpace o.name
  | .kb => fun
    | .promote version => prepareKbStagePromotion o.tenant o.nameSpace o.name version
    | .rollback version => rollbackKbStagePromotion o.tenant o.nameSpace o.name version
    | .copy old new => prepareKbVersionCopy o.tenant o.nameSpace o.name old new
    | .cleanup version => cleanupKbVersionDir o.tenant o.nameSpace o.name version

/-! ## What is promised -/

/-- No operation on `o` changes or removes a file of `other`. -/
def Spares (o other : Owner) : Prop :=
  ∀ (op : Op o.kind) (t : Tree) (p : Place), other.dir <+: p → (o.run op t).content p = t.content p

/-- The directory stands inside the root of its kind. -/
def Inside (o : Owner) : Prop :=
  placeOf o.kind.rootDir <+: o.dir ∧ o.dir ≠ placeOf o.kind.rootDir

/-- Two owners have storage of their own. -/
structure Private (a b : Owner) : Prop where
  distinct : a.dir ≠ b.dir
  notIn : ¬ b.dir <+: a.dir
  notAround : ¬ a.dir <+: b.dir
  inside : a.Inside ∧ b.Inside
  spares : a.Spares b ∧ b.Spares a

/-! ## The condition on the names -/

/-- The segments of the joined name, each `".."` cancelled against the name before it: how many
of them climb, and the names after these. -/
def cancelled (o : Owner) : ℕ × List String := cancel (segments o.joined.toList)

/-- The names of the root that the joined name climbs out of. -/
def climbed (o : Owner) : List String :=
  o.kind.rootNames.drop (o.kind.rootNames.length - o.cancelled.1)

/-- What the joined name adds once it has come back into the root. -/
def added (o : Owner) : List String := o.cancelled.2.drop o.climbed.length

/-- The joined name enters each name of the root again that it climbed out of, and more. -/
structure Enters (o : Owner) : Prop where
  again : o.climbed <+: o.cancelled.2
  more : o.added ≠ []

/-- Both joined names stay in their roots, and for owners of one kind what the one adds does
not begin with what the other adds. -/
structure Apart (a b : Owner) : Prop where
  left : a.Enters
  right : b.Enters
  differ : a.kind = b.kind → ¬ a.added <+: b.added ∧ ¬ b.added <+: a.added

/-- The joined name is a single segment: the name has no slash, and not all three are empty. -/
structure Plain (o : Owner) : Prop where
  slash : '/' ∉ o.name.toList
  named : o.joined ≠ ".."

/-! ## Where the paths lead -/

variable {a b o : Owner}

theorem head?_joinedName_ne (htenant : validateName o.tenant = true) :
    o.joined.toList.head? ≠ some '/' := by
  unfold joined joinedName
  rw [String.toList_append, String.toList_append, String.toList_append, String.toList_append]
  rcases ht : o.tenant.toList with _ | ⟨c, l⟩
  · exact fun h => absurd (Option.some.inj h) (by decide)
  · intro h
    have hc : c = '/' := Option.some.inj h
    exact slash_not_mem_of_validateName htenant (by rw [ht, hc]; exact List.mem_cons_self)

theorem placeOf_rootDir (k : Kind) : placeOf k.rootDir = k.rootNames := by
  cases k <;> decide

/-- A directory is found by the names of the root that are left, and the names after them. -/
theorem dir_eq (o : Owner) : o.dir =
    o.kind.rootNames.take (o.kind.rootNames.length - o.cancelled.1) ++ o.cancelled.2 := by
  rw [← placeOf_rootDir]
  exact (placeOf_join (head?_joinedName_ne o.validTenant)).trans (settle_cancel ..)

theorem Enters.dir_eq (h : o.Enters) : o.dir = o.kind.rootNames ++ o.added := by
  obtain ⟨l, hl⟩ := h.again
  have hadded : o.added = l := by
    unfold added
    rw [← hl, List.drop_left]
  rw [Owner.dir_eq, ← hl, hadded, ← List.append_assoc, climbed, List.take_append_drop]

theorem placeOf_versionDirPath (o : Owner) (version : ℤ) :
    placeOf (o.kind.versionDirPath o.tenant o.nameSpace o.name version) =
      o.dir ++ [toString version] := placeOf_join_number ..

theorem placeOf_fileName (k : Kind) (p : String) :
    placeOf (join p k.fileName) = placeOf p ++ [k.fileName] := by
  cases k <;> exact placeOf_join_name (by decide) (by decide) (by decide)

theorem placeOf_versionFilePath (o : Owner) (version : ℤ) :
    placeOf (o.kind.versionFilePath o.tenant o.nameSpace o.name version) =
      o.dir ++ [toString version] ++ [o.kind.fileName] := by
  rw [← placeOf_versionDirPath]
  exact placeOf_fileName ..

/-- What is not below a place is not at a place below it. -/
theorem ne_of_not_below {d p : Place} (h : ¬ d <+: p) (s : Place) : p ≠ d ++ s := by
  rintro rfl
  exact h (List.prefix_append ..)

/-- **An operation changes files of its owner only.** -/
theorem run_content {op : Op o.kind} {t : Tree} {p : Place} (h : ¬ o.dir <+: p) :
    (o.run op t).content p = t.content p := by
  have hfile : ∀ version, p ≠
      placeOf (o.kind.versionFilePath o.tenant o.nameSpace o.name version) := fun version => by
    rw [placeOf_versionFilePath, List.append_assoc]
    exact ne_of_not_below h _
  have hdir : ∀ version, ¬
      placeOf (o.kind.versionDirPath o.tenant o.nameSpace o.name version) <+: p := fun version hp => by
    rw [placeOf_versionDirPath] at hp
    exact h ((List.prefix_append ..).trans hp)
  have hstage : p ≠ placeOf (join (o.kind.rootPath o.tenant o.nameSpace o.name) o.kind.fileName) := by
    rw [placeOf_fileName]
    exact ne_of_not_below h _
  obtain ⟨kind, tenant, nameSpace, name, _, _, _⟩ := o
  cases op with
  | create version skillPrefix =>
    change (writeSkillPrefix tenant nameSpace name version skillPrefix t).content p = _
    unfold writeSkillPrefix
    have hmade := Tree.content_createDirAll t (skillVersionDirPath tenant nameSpace name version) p
    split
    next t' heq =>
      rw [heq] at hmade
      exact (Tree.content_write (hfile version)).trans hmade
    next t' heq =>
      rw [heq] at hmade
      exact hmade
  | delete =>
    change (removeSkillStorage tenant nameSpace name t).content p = _
    unfold removeSkillStorage
    split
    · exact Tree.content_removeDirAll h
    · rfl
  | promote version =>
    change (prepareKbStagePromotion tenant nameSpace name version t).content p = _
    unfold prepareKbStagePromotion
    have hmade := Tree.content_createDirAll t (kbVersionDirPath tenant nameSpace name version) p
    split
    · split
      next t' heq =>
        rw [heq] at hmade
        exact (Tree.content_rename hstage (hfile version)).trans hmade
      next t' heq =>
        rw [heq] at hmade
        exact hmade
    · rfl
  | rollback version =>
    change (rollbackKbStagePromotion tenant nameSpace name version t).content p = _
    unfold rollbackKbStagePromotion
    split
    · exact (Tree.content_rename (hfile version) hstage).trans (Tree.content_createDirAll ..)
    · rfl
  | copy old new =>
    change (prepareKbVersionCopy tenant nameSpace name old new t).content p = _
    unfold prepareKbVersionCopy
    have hmade := Tree.content_createDirAll t (kbVersionDirPath tenant nameSpace name new) p
    split
    · split
      next t' heq =>
        rw [heq] at hmade
        exact (Tree.content_copy (hfile new)).trans hmade
      next t' heq =>
        rw [heq] at hmade
        exact hmade
    · rfl
  | cleanup version =>
    exact Tree.content_removeDirAll (hdir version)

theorem spares_of_apart (h : ¬ a.dir <+: b.dir) (h' : ¬ b.dir <+: a.dir) : a.Spares b := by
  intro op t p hp
  refine run_content fun hown => ?_
  rcases List.prefix_or_prefix_of_prefix hown hp with hab | hba
  · exact h hab
  · exact h' hba

theorem inside_iff : o.Inside ↔ o.Enters := by
  unfold Inside
  rw [placeOf_rootDir]
  constructor
  · rintro ⟨⟨l, hl⟩, hne⟩
    have hagain : o.climbed ++ l = o.cancelled.2 := by
      apply List.append_cancel_left
      rw [← o.dir_eq, ← hl, ← List.append_assoc, climbed, List.take_append_drop]
    have hadded : o.added = l := by
      unfold added
      rw [← hagain, List.drop_left]
    refine ⟨⟨l, hagain⟩, fun hnil => hne ?_⟩
    rw [← hl, ← hadded, hnil, List.append_nil]
  · intro h
    rw [h.dir_eq]
    exact ⟨List.prefix_append .., fun heq => h.more (List.append_right_eq_self.mp heq)⟩

/-- In their roots, directories are below each other as what the names add. -/
theorem dir_prefix_iff (ha : a.Enters) (hb : b.Enters) :
    a.dir <+: b.dir ↔ a.kind = b.kind ∧ a.added <+: b.added := by
  rw [ha.dir_eq, hb.dir_eq]
  rcases a.kind <;> rcases b.kind <;> simp [Kind.rootNames]

/-- Plain names stay in their roots and add themselves. -/
theorem Plain.enters (h : o.Plain) : o.Enters ∧ o.added = [o.joined] := by
  have hjoined : o.joined.toList =
      o.tenant.toList ++ ['.'] ++ o.nameSpace.toList ++ ['.'] ++ o.name.toList := by
    unfold joined joinedName
    rw [String.toList_append, String.toList_append, String.toList_append, String.toList_append]
    rfl
  have hslash : '/' ∉ o.joined.toList := by
    rw [hjoined]
    simp only [List.mem_append, not_or]
    exact ⟨⟨⟨⟨slash_not_mem_of_validateName o.validTenant, by decide⟩,
      slash_not_mem_of_validateName o.validNamespace⟩, by decide⟩, h.slash⟩
  have hlen : 2 ≤ o.joined.toList.length := by
    rw [hjoined]
    simp only [List.length_append, List.length_cons, List.length_nil]
    omega
  have hstep : isStep o.joined = true := by
    unfold isStep
    rw [Bool.and_eq_true, bne_iff_ne, bne_iff_ne]
    constructor
    · intro heq
      rw [heq] at hlen
      exact absurd hlen (by decide)
    · intro heq
      rw [heq] at hlen
      exact absurd hlen (by decide)
  have hcancelled : o.cancelled = (0, [o.joined]) := by
    unfold cancelled
    rw [segments_name hslash hstep]
    simp [cancel, h.named]
  have hclimbed : o.climbed = [] := by
    unfold climbed
    rw [hcancelled, Nat.sub_zero, List.drop_length]
  have hadded : o.added = [o.joined] := by
    unfold added
    rw [hclimbed, hcancelled]
    rfl
  exact ⟨⟨by rw [hclimbed]; exact List.nil_prefix, by rw [hadded]; exact List.cons_ne_nil _ _⟩, hadded⟩

/-- For plain names all that matters is that the joined names differ, or the kinds. -/
theorem apart_plain_iff (ha : a.Plain) (hb : b.Plain) :
    a.Apart b ↔ (a.kind = b.kind → a.joined ≠ b.joined) := by
  have hdiffer : (¬ a.added <+: b.added ∧ ¬ b.added <+: a.added) ↔ a.joined ≠ b.joined := by
    rw [ha.enters.2, hb.enters.2]
    simp [eq_comm]
  exact ⟨fun h hkind => hdiffer.mp (h.differ hkind),
    fun h => ⟨ha.enters.1, hb.enters.1, fun hkind => hdiffer.mpr (h hkind)⟩⟩

theorem private_iff_apart : Private a b ↔ Apart a b := by
  constructor
  · intro h
    have ha := inside_iff.mp h.inside.1
    have hb := inside_iff.mp h.inside.2
    exact ⟨ha, hb, fun hkind => ⟨fun hadd => h.notAround ((dir_prefix_iff ha hb).mpr ⟨hkind, hadd⟩),
      fun hadd => h.notIn ((dir_prefix_iff hb ha).mpr ⟨hkind.symm, hadd⟩)⟩⟩
  · intro h
    have hin : ¬ b.dir <+: a.dir := fun hp =>
      have ⟨hkind, hadd⟩ := (dir_prefix_iff h.right h.left).mp hp
      (h.differ hkind.symm).2 hadd
    have haround : ¬ a.dir <+: b.dir := fun hp =>
      have ⟨hkind, hadd⟩ := (dir_prefix_iff h.left h.right).mp hp
      (h.differ hkind).1 hadd
    have hne : a.dir ≠ b.dir := fun heq => hin ⟨[], by rw [heq, List.append_nil]⟩
    exact ⟨hne, hin, haround, ⟨inside_iff.mpr h.left, inside_iff.mpr h.right⟩,
      ⟨spares_of_apart haround hin, spares_of_apart hin haround⟩⟩

/-- **When is storage private?** When the two names stay in their roots and what the one adds
does not begin with what the other adds; for names without a slash, when the joined names
differ or one is of a skill and the other of a knowledge base. -/
theorem private_iff (a b : Owner) : (Private a b ↔ Apart a b) ∧
    (a.Plain → b.Plain → (Private a b ↔ (a.kind = b.kind → a.joined ≠ b.joined))) :=
  ⟨private_iff_apart, fun ha hb => private_iff_apart.trans (apart_plain_iff ha hb)⟩

end Owner

/-! ## Two names of one directory -/

/-- The skill `d` of tenant `a.b`, namespace `c`. -/
def sampleLeft : Owner where
  kind := .skill
  tenant := "a.b"
  nameSpace := "c"
  name := "d"
  validTenant := by decide
  validNamespace := by decide
  accepted := ⟨by decide, by decide⟩

/-- The skill `d` of tenant `a`, namespace `b.c`. -/
def sampleRight : Owner where
  kind := .skill
  tenant := "a"
  nameSpace := "b.c"
  name := "d"
  validTenant := by decide
  validNamespace := by decide
  accepted := ⟨by decide, by decide⟩

/-- A file system with nothing but its root. -/
def rootOnly : Tree := fun p => if p = [] then some .dir else none

theorem shared_directory : ¬ ∀ a b : Owner,
    (a.tenant, a.nameSpace, a.name) ≠ (b.tenant, b.nameSpace, b.name) → a.Private b :=
  fun h => (h sampleLeft sampleRight (by decide)).distinct (by decide)

-- deleting the one skill takes the file of the other
example :
    let t := sampleRight.run (.create 1 "prefix") rootOnly
    let file := sampleRight.dir ++ ["1", "skill.data"]
    t.content file = some "prefix" ∧ (sampleLeft.run .delete t).content file = none := by
  decide +kernel

end Inferx.Gateway.Storage
