import Inferx.Lib.Codes
import Mathlib.Data.List.Perm.Basic
import Std.Data.HashMap.Lemmas

/-!
# Names of skill tools

A tenant's own skills are offered to a model under tool names: the plain name of the
skill where this tells it from the others, else the names of skill, namespace and tenant
with dots between them. Dots and percent signs inside the three are escaped, so that the
long name can be cut at its dots again, and a plain name has none.
-/

namespace Inferx.Gateway.ToolNames

/-! ## The escaping -/

def isAsciiAlphanumeric (byte : UInt8) : Bool :=
  (48 ≤ byte && byte ≤ 57) || (65 ≤ byte && byte ≤ 90) || (97 ≤ byte && byte ≤ 122)

/-- The bytes that stand for themselves. -/
def keep (byte : UInt8) : Bool :=
  isAsciiAlphanumeric byte || byte == 45 || byte == 95 || byte == 126

/-- A digit of `{:02X}`. -/
def hexDigit (n : ℕ) : Char := if n < 10 then Char.ofNat (48 + n) else Char.ofNat (55 + n)

def encodeByte (byte : UInt8) : List Char :=
  if keep byte then [Char.ofNat byte.toNat]
  else ['%', hexDigit (byte.toNat / 16), hexDigit (byte.toNat % 16)]

def percentEncodeToolNameComponent (component : String) : String :=
  String.ofList (component.toUTF8.data.toList.flatMap encodeByte)

/-! ## The names -/

/-- `OwnSkillToolIdentity`. -/
class OwnSkillToolIdentity (T : Type) where
  ownerTenant : T → String
  ownerNamespace : T → String
  skillname : T → String

export OwnSkillToolIdentity (ownerTenant ownerNamespace skillname)

variable {T : Type} [OwnSkillToolIdentity T]

/-- The triple that a name is kept under. -/
def identity (skill : T) : String × String × String :=
  (ownerTenant skill, ownerNamespace skill, skillname skill)

/-- How many skills have a name. -/
def nameCounts (skills : List T) : Std.HashMap String ℕ :=
  skills.foldl (fun counts skill =>
    counts.insert (skillname skill) (counts[skillname skill]?.getD 0 + 1)) ∅

def toolName (counts : Std.HashMap String ℕ) : String × String × String → String
  | (tenant, nameSpace, name) =>
    if '.' ∈ name.toList ∨ 1 < counts[name]?.getD 0 then
      percentEncodeToolNameComponent name ++ "." ++ percentEncodeToolNameComponent nameSpace ++ "." ++
        percentEncodeToolNameComponent tenant
    else name

def computeOwnSkillToolNames (skills : List T) : Std.HashMap (String × String × String) String :=
  skills.foldl (fun names skill =>
    names.insert (identity skill) (toolName (nameCounts skills) (identity skill))) ∅

/-! ## Reading a name back -/

theorem toNat_ofNat_byte (byte : UInt8) : (Char.ofNat byte.toNat).toNat = byte.toNat := by
  have hall : ∀ n : Fin 256, (Char.ofNat n).toNat = n := by decide +kernel
  exact hall ⟨byte.toNat, byte.toNat_lt⟩

theorem keep_ne {byte : UInt8} (h : keep byte = true) {c : Char} (hc : c = '.' ∨ c = '%') :
    Char.ofNat byte.toNat ≠ c := by
  intro heq
  have hnat := congrArg Char.toNat heq
  rw [toNat_ofNat_byte] at hnat
  rcases hc with rfl | rfl
  · obtain rfl : byte = 46 := UInt8.toNat_inj.mp hnat
    exact absurd h (by decide)
  · obtain rfl : byte = 37 := UInt8.toNat_inj.mp hnat
    exact absurd h (by decide)

theorem hexDigit_inj {m n : ℕ} (hm : m < 16) (hn : n < 16) (h : hexDigit m = hexDigit n) : m = n := by
  have hall : ∀ i j : Fin 16, hexDigit i = hexDigit j → i = j := by decide
  exact congrArg Fin.val (hall ⟨m, hm⟩ ⟨n, hn⟩ h)

theorem hexDigit_ne {n : ℕ} (hn : n < 16) : hexDigit n ≠ '.' := by
  have hall : ∀ i : Fin 16, hexDigit i ≠ '.' := by decide
  exact hall ⟨n, hn⟩

/-- **Escaped bytes can be read off.** -/
theorem isCode_encodeByte : List.IsCode encodeByte := by
  intro a b x y h
  unfold encodeByte at h
  split at h
  next ha =>
    split at h
    next =>
      obtain ⟨hhead, hrest⟩ := List.cons.inj h
      refine ⟨UInt8.toNat_inj.mp ?_, hrest⟩
      rw [← toNat_ofNat_byte a, ← toNat_ofNat_byte b, hhead]
    next => exact absurd (List.cons.inj h).1 (keep_ne ha (.inr rfl))
  next =>
    split at h
    next hb => exact absurd (List.cons.inj h).1.symm (keep_ne hb (.inr rfl))
    next =>
      obtain ⟨-, h⟩ := List.cons.inj h
      obtain ⟨hhigh, h⟩ := List.cons.inj h
      obtain ⟨hlow, hrest⟩ := List.cons.inj h
      have ha := a.toNat_lt
      have hb := b.toNat_lt
      have hdiv := hexDigit_inj (by omega) (by omega) hhigh
      have hmod := hexDigit_inj (by omega) (by omega) hlow
      exact ⟨UInt8.toNat_inj.mp (by omega), hrest⟩

theorem encodeByte_ne_nil (byte : UInt8) : encodeByte byte ≠ [] := by
  unfold encodeByte
  split
  next => exact List.cons_ne_nil _ _
  next => exact List.cons_ne_nil _ _

theorem dot_not_mem_encodeByte (byte : UInt8) : '.' ∉ encodeByte byte := by
  have hlt := byte.toNat_lt
  unfold encodeByte
  split
  next hkeep => simpa using (keep_ne hkeep (.inl rfl)).symm
  next =>
    have hhigh := hexDigit_ne (n := byte.toNat / 16) (by omega)
    have hlow := hexDigit_ne (n := byte.toNat % 16) (by omega)
    simp [hhigh.symm, hlow.symm]

theorem percentEncode_inj {a b : String}
    (h : percentEncodeToolNameComponent a = percentEncodeToolNameComponent b) : a = b := by
  have hbytes := isCode_encodeByte.flatMap_injective encodeByte_ne_nil (String.ofList_inj.mp h)
  exact String.toByteArray_inj.mp (ByteArray.ext (Array.toList_inj.mp hbytes))

theorem dot_not_mem_percentEncode (a : String) :
    '.' ∉ (percentEncodeToolNameComponent a).toList := by
  unfold percentEncodeToolNameComponent
  rw [String.toList_ofList, List.mem_flatMap]
  rintro ⟨byte, -, hdot⟩
  exact dot_not_mem_encodeByte byte hdot

/-! ## Names and skills -/

theorem get_nameCounts {skills : List T} {name : String} :
    (nameCounts skills)[name]?.getD 0 = (skills.map skillname).count name := by
  have hfold : ∀ counts : Std.HashMap String ℕ,
      (skills.foldl (fun counts skill =>
        counts.insert (skillname skill) (counts[skillname skill]?.getD 0 + 1)) counts)[name]?.getD 0 =
        counts[name]?.getD 0 + (skills.map skillname).count name := by
    induction skills with
    | nil => exact fun _ => rfl
    | cons skill skills ih =>
      intro counts
      rw [List.foldl_cons, ih, List.map_cons, List.count_cons, Std.HashMap.getElem?_insert]
      by_cases heq : skillname skill = name
      · rw [heq, if_pos BEq.rfl, if_pos BEq.rfl, Option.getD_some, Nat.add_right_comm, Nat.add_assoc]
      · have hne : (skillname skill == name) = false := beq_false_of_ne heq
        rw [hne, if_neg Bool.false_ne_true, if_neg Bool.false_ne_true, Nat.add_zero]
  unfold nameCounts
  rw [hfold, Std.HashMap.getElem?_empty, Option.getD_none, Nat.zero_add]

/-- Every skill has its name, and it depends on the counts alone. -/
theorem get_names {skills : List T} {skill : T} (h : skill ∈ skills) :
    (computeOwnSkillToolNames skills)[identity skill]? =
      some (toolName (nameCounts skills) (identity skill)) := by
  unfold computeOwnSkillToolNames
  generalize nameCounts skills = counts
  have hfold : ∀ names : Std.HashMap (String × String × String) String,
      (skill ∈ skills ∨ names[identity skill]? = some (toolName counts (identity skill))) →
      (skills.foldl (fun names skill =>
        names.insert (identity skill) (toolName counts (identity skill))) names)[identity skill]? =
        some (toolName counts (identity skill)) := by
    clear h
    induction skills with
    | nil => exact fun names h => h.resolve_left List.not_mem_nil
    | cons other skills ih =>
      intro names h
      rw [List.foldl_cons]
      refine ih _ (or_iff_not_imp_left.mpr fun hmem => ?_)
      rw [Std.HashMap.getElem?_insert]
      split
      next heq => rw [eq_of_beq heq]
      next hne =>
        refine h.resolve_left fun hcons => ?_
        rcases List.mem_cons.mp hcons with rfl | hin
        · exact hne BEq.rfl
        · exact hmem hin
  exact hfold ∅ (.inl h)

/-- Of two skills of one name, both have the long one. -/
theorem one_lt_count {skills : List T} {a b : T} (ha : a ∈ skills) (hb : b ∈ skills)
    (hne : identity a ≠ identity b) (hname : skillname a = skillname b) :
    1 < (skills.map skillname).count (skillname a) := by
  obtain ⟨l₁, l₂, rfl⟩ := List.append_of_mem ha
  have hrest : b ∈ l₁ ++ l₂ := by
    rcases List.mem_append.mp hb with h | h
    · exact List.mem_append_left _ h
    · rcases List.mem_cons.mp h with rfl | h
      · exact absurd rfl hne
      · exact List.mem_append_right _ h
  have hperm := (show (l₁ ++ a :: l₂).Perm (a :: (l₁ ++ l₂)) from List.perm_middle).map skillname
  rw [hperm.count_eq, List.map_cons, List.count_cons_self]
  have hpos : 0 < ((l₁ ++ l₂).map skillname).count (skillname a) :=
    List.count_pos_iff.mpr (hname ▸ List.mem_map_of_mem hrest)
  omega

theorem long_inj {t n s t' n' s' : String}
    (h : percentEncodeToolNameComponent s ++ "." ++ percentEncodeToolNameComponent n ++ "." ++
        percentEncodeToolNameComponent t =
      percentEncodeToolNameComponent s' ++ "." ++ percentEncodeToolNameComponent n' ++ "." ++
        percentEncodeToolNameComponent t') : (t, n, s) = (t', n', s') := by
  have hlist := congrArg String.toList h
  simp only [String.toList_append, List.append_assoc] at hlist
  obtain ⟨hs, hlist⟩ := List.append_sep_inj (dot_not_mem_percentEncode s)
    (dot_not_mem_percentEncode s') hlist
  obtain ⟨hn, ht⟩ := List.append_sep_inj (dot_not_mem_percentEncode n)
    (dot_not_mem_percentEncode n') hlist
  rw [percentEncode_inj (String.toList_inj.mp hs), percentEncode_inj (String.toList_inj.mp hn),
    percentEncode_inj (String.toList_inj.mp ht)]

/-- A name with dots is a long one. -/
theorem dot_mem_long (a b c : String) : '.' ∈ (a ++ "." ++ b ++ "." ++ c).toList := by
  simp

theorem toolName_inj {skills : List T} {a b : T} (ha : a ∈ skills) (hb : b ∈ skills)
    (h : toolName (nameCounts skills) (identity a) = toolName (nameCounts skills) (identity b)) :
    identity a = identity b := by
  by_contra hne
  unfold identity toolName at h
  dsimp only at h
  rw [get_nameCounts, get_nameCounts] at h
  split at h
  next =>
    split at h
    next => exact hne (long_inj h)
    next hplain =>
      rw [← h] at hplain
      exact hplain (.inl (dot_mem_long ..))
  next hplain =>
    split at h
    next =>
      rw [h] at hplain
      exact hplain (.inl (dot_mem_long ..))
    next => exact hplain (.inr (one_lt_count ha hb hne h))

/-- **Tool names identify the skill.** -/
theorem toolNames_identify (skills : List T) :
    (∀ skill ∈ skills, ((computeOwnSkillToolNames skills)[identity skill]?).isSome = true) ∧
      (∀ a ∈ skills, ∀ b ∈ skills, identity a ≠ identity b →
        (computeOwnSkillToolNames skills)[identity a]? ≠
          (computeOwnSkillToolNames skills)[identity b]?) ∧
      ∀ other : List T, skills.Perm other → ∀ skill ∈ skills,
        (computeOwnSkillToolNames other)[identity skill]? =
          (computeOwnSkillToolNames skills)[identity skill]? := by
  refine ⟨fun skill h => ?_, fun a ha b hb hne heq => ?_, fun other hperm skill h => ?_⟩
  · rw [get_names h]
    rfl
  · rw [get_names ha, get_names hb] at heq
    exact hne (toolName_inj ha hb (Option.some.inj heq))
  · rw [get_names h, get_names (hperm.mem_iff.mp h)]
    unfold identity toolName
    dsimp only
    rw [get_nameCounts, get_nameCounts, (hperm.map skillname).count_eq]

end Inferx.Gateway.ToolNames
