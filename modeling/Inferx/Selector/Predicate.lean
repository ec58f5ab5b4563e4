import Inferx.Gateway.Metering
import Inferx.Metastore.Objects
import Inferx.Selector.Match

/-!
# Selecting objects

A predicate asks for labels of an object and for attributes of it, which are the values
that its JSON has at the requested paths, and its name and namespace under
`metadata.name` and `metadata.namespace`. The attributes are collected first: a single
requested path that the JSON does not have, and be it that of the name, ends the
collection, and nothing is selected.
-/

namespace Inferx.Selector

open Gateway Metastore String

/-- What `ToString` leaves to the formatting of JSON values: a number as it is displayed, an array
and an object as they are printed for debugging. -/
structure Formats where
  number : Number → String
  array : List Value → String
  object : Object → String

/-- `Selector::ToString`. -/
def Formats.toString (fmt : Formats) : Value → String
  | .null => ""
  | .bool b => if b then "true" else "false"
  | .number n => fmt.number n
  | .string s => s
  | .array l => fmt.array l
  | .object o => fmt.object o

/-- The value at a path. -/
def valueAt (val : Value) (key : List Char) : Option Value :=
  (key.splitOn '.').foldlM (fun tmp s => tmp.get (ofList s)) val

/-- `Selector::GetAttributes`. -/
def getAttributes (fmt : Formats) (val : Value) (field : List HeldRequirement) : Option Labels :=
  field.foldlM (fun map r => (valueAt val r.key).map
    fun v => map.insert (ofList r.key) (fmt.toString v)) ∅

/-- `SelectionPredicate`, as far as objects are matched with it. -/
structure SelectionPredicate where
  label : List HeldRequirement
  field : List HeldRequirement

namespace SelectionPredicate

/-- `SelectionPredicate::Empty`. -/
def empty (pred : SelectionPredicate) : Bool := pred.label.isEmpty && pred.field.isEmpty

/-- The name and the namespace of an object, where they are asked for. -/
def withMetadata (obj : DataObject Value) (field : List HeldRequirement)
    (attrs : Labels) : Labels :=
  field.foldl (fun attrs r =>
    if ofList r.key = "metadata.name" then attrs.insert "metadata.name" obj.name
    else if ofList r.key = "metadata.namespace" then attrs.insert "metadata.namespace" obj.nameSpace
    else attrs) attrs

/-- `SelectionPredicate::Match`. -/
def matchObj (fmt : Formats) (pred : SelectionPredicate) (obj : DataObject Value) :
    Except ParseError Bool :=
  if pred.empty then .ok true
  else do
    if ← selectorMatchs obj.labels pred.label then
      match getAttributes fmt obj.object pred.field with
      | none => .ok false
      | some attrs => selectorMatchs (withMetadata obj pred.field attrs) pred.field
    else .ok false

end SelectionPredicate

/-! ## What is selected -/

section Attributes

variable (fmt : Formats) (obj : DataObject Value)

/-- The attribute of an object at a path, if it has one. -/
def attributeAt (key : List Char) : Option String :=
  if ofList key = "metadata.name" then some obj.name
  else if ofList key = "metadata.namespace" then some obj.nameSpace
  else (valueAt obj.object key).map fmt.toString

/-- The map with what `f` has for the keys that are asked for. -/
def fill (f : List Char → Option String) (field : List HeldRequirement) (m : Labels) : Labels :=
  field.foldl (fun m r => (f r.key).elim m fun v => m.insert (ofList r.key) v) m

/-- The attributes that are asked for. -/
def attributeMap (field : List HeldRequirement) : Labels := fill (attributeAt fmt obj) field ∅

/-- Does the object have a value at every path that is asked for? -/
def Complete (field : List HeldRequirement) : Prop :=
  ∀ r ∈ field, (valueAt obj.object r.key).isSome = true

instance (field : List HeldRequirement) : Decidable (Complete obj field) :=
  inferInstanceAs (Decidable (∀ r ∈ field, _))

/-- What a predicate is for: the labels match, and so do the attributes. -/
def SelectionPredicate.Selects (pred : SelectionPredicate) : Prop :=
  selectorMatchs obj.labels pred.label = .ok true ∧
    selectorMatchs (attributeMap fmt obj pred.field) pred.field = .ok true

end Attributes

/-! ## Looking up -/

section Lookup

variable {fmt : Formats} {obj : DataObject Value} {field : List HeldRequirement}

/-- A selector looks only at its own keys. -/
theorem selectorMatchs_congr {ls ls' : Labels}
    (h : ∀ r ∈ field, ls[ofList r.key]? = ls'[ofList r.key]?) :
    selectorMatchs ls field = selectorMatchs ls' field := by
  induction field with
  | nil => rfl
  | cons r field ih =>
    have hr : r.matchs ls = r.matchs ls' := by
      unfold HeldRequirement.matchs Requirement.matchs
      have hkey : ls[ofList r.toRequirement.key]? = ls'[ofList r.toRequirement.key]? :=
        h r List.mem_cons_self
      rw [hkey]
    have hrest := ih fun a ha => h a (List.mem_cons_of_mem r ha)
    unfold selectorMatchs
    rw [hr, hrest]

theorem get_fill {f : List Char → Option String} {m : Labels} {r : HeldRequirement}
    (hr : r ∈ field) :
    (fill f field m)[ofList r.key]? = (f r.key).or m[ofList r.key]? := by
  have hstep : ∀ (m : Labels) (a : HeldRequirement) (k : List Char),
      ((f a.key).elim m fun v => m.insert (ofList a.key) v)[ofList k]? =
        if k = a.key then (f k).or m[ofList k]? else m[ofList k]? := by
    intro m a k
    rcases hf : f a.key with _ | v
    · split
      next heq =>
        rw [heq, hf]
        rfl
      next => rfl
    · rw [Option.elim_some, BTreeMap.get_insert, if_congr ofList_inj rfl rfl]
      split
      next heq =>
        rw [heq, hf]
        rfl
      next => rfl
  have hor : ∀ (field : List HeldRequirement) (m : Labels), (fill f field m)[ofList r.key]? =
      if ∃ a ∈ field, r.key = a.key then (f r.key).or m[ofList r.key]? else m[ofList r.key]? := by
    intro field
    induction field with
    | nil =>
      intro m
      rw [if_neg fun ⟨_, ha, _⟩ => nomatch ha]
      rfl
    | cons a field ih =>
      intro m
      refine (ih _).trans ?_
      rw [hstep]
      by_cases ha : r.key = a.key
      · have hor' : (f r.key).or ((f r.key).or m[ofList r.key]?)
          = (f r.key).or m[ofList r.key]? := by
          rcases f r.key with _ | v
          · rfl
          · rfl
        rw [if_pos ha, hor', ite_self, if_pos ⟨a, List.mem_cons_self, ha⟩]
      · rw [if_neg ha]
        refine if_congr ?_ rfl rfl
        rw [List.exists_mem_cons_iff, or_iff_right ha]
  rw [hor, if_pos ⟨r, hr, rfl⟩]

/-- The name and the namespace of an object, as attributes. -/
def metadataAt (obj : DataObject Value) (key : List Char) : Option String :=
  if ofList key = "metadata.name" then some obj.name
  else if ofList key = "metadata.namespace" then some obj.nameSpace
  else none

theorem withMetadata_eq (attrs : Labels) :
    SelectionPredicate.withMetadata obj field attrs = fill (metadataAt obj) field attrs := by
  unfold SelectionPredicate.withMetadata fill
  congr 1
  funext attrs r
  unfold metadataAt
  split
  next heq => rw [Option.elim_some, heq]
  next =>
    split
    next heq => rw [Option.elim_some, heq]
    next => rfl

/-- The collection succeeds where the object has all values, and then they are all there. -/
theorem getAttributes_eq : getAttributes fmt obj.object field =
    if Complete obj field then
      some (fill (fun key => (valueAt obj.object key).map fmt.toString) field ∅)
    else none := by
  have hfold : ∀ (field : List HeldRequirement) (m : Labels),
      field.foldlM (fun map r => (valueAt obj.object r.key).map fun v =>
          map.insert (ofList r.key) (fmt.toString v)) m =
        if Complete obj field then
          some (fill (fun key => (valueAt obj.object key).map fmt.toString) field m)
        else none := by
    intro field
    induction field with
    | nil =>
      intro m
      have hnil : Complete obj [] := fun r hr => nomatch hr
      rw [if_pos hnil]
      rfl
    | cons a field ih =>
      intro m
      rw [List.foldlM_cons]
      rcases ha : valueAt obj.object a.key with _ | v
      · rw [if_neg fun h => nomatch ha ▸ h a List.mem_cons_self]
        rfl
      · refine (ih _).trans ?_
        have hcomplete : Complete obj (a :: field) ↔ Complete obj field := by
          unfold Complete
          rw [List.forall_mem_cons, ha]
          exact and_iff_right rfl
        have hfill : fill (fun key => (valueAt obj.object key).map fmt.toString) (a :: field) m
            = fill (fun key => (valueAt obj.object key).map fmt.toString) field
                (m.insert (ofList a.key) (fmt.toString v)) := by
          unfold fill
          rw [List.foldl_cons]
          dsimp only
          rw [ha]
          rfl
        rw [if_congr hcomplete rfl rfl, hfill]
  exact hfold field ∅

end Lookup

section Match

variable {fmt : Formats} {obj : DataObject Value} {pred : SelectionPredicate}

/-- Labels and attributes one after the other. -/
theorem matchObj_of_complete (h : Complete obj pred.field) :
    pred.matchObj fmt obj = (do
      if ← selectorMatchs obj.labels pred.label then
        selectorMatchs (attributeMap fmt obj pred.field) pred.field
      else .ok false) := by
  have hattrs : getAttributes fmt obj.object pred.field =
      some (fill (fun key => (valueAt obj.object key).map fmt.toString) pred.field ∅) :=
    getAttributes_eq.trans (if_pos h)
  have hfield : selectorMatchs (SelectionPredicate.withMetadata obj pred.field
        (fill (fun key => (valueAt obj.object key).map fmt.toString) pred.field ∅)) pred.field
      = selectorMatchs (attributeMap fmt obj pred.field) pred.field := by
    refine selectorMatchs_congr fun r hr => ?_
    unfold attributeMap
    rw [withMetadata_eq, get_fill hr, get_fill hr, get_fill hr]
    unfold metadataAt attributeAt
    split
    next => rfl
    next =>
      split
      next => rfl
      next => rfl
  unfold SelectionPredicate.matchObj
  rw [hattrs]
  dsimp only
  rw [hfield]
  split
  next hempty =>
    obtain ⟨hlabel, hfield⟩ := Bool.and_eq_true_iff.mp hempty
    rw [List.isEmpty_iff.mp hlabel, List.isEmpty_iff.mp hfield]
    rfl
  next => rfl

theorem matchObj_of_not_complete (h : ¬ Complete obj pred.field) :
    pred.matchObj fmt obj ≠ .ok true := by
  have hnone : getAttributes fmt obj.object pred.field = none := getAttributes_eq.trans (if_neg h)
  have hempty : pred.empty = false := by
    refine Bool.eq_false_iff.mpr fun hempty => h ?_
    rw [List.isEmpty_iff.mp (Bool.and_eq_true_iff.mp hempty).2]
    exact fun r hr => nomatch hr
  unfold SelectionPredicate.matchObj
  rw [hempty, hnone, if_neg Bool.false_ne_true]
  rcases selectorMatchs obj.labels pred.label with err | matched
  · exact fun heq => nomatch heq
  · cases matched
    · exact fun heq => nomatch heq
    · exact fun heq => nomatch heq

/-- **Selection.** An object is matched exactly if its labels and its attributes are, exactly if
one of these does not match or the object has a value at every path that is asked for. -/
theorem matchObj_iff (fmt : Formats) (pred : SelectionPredicate) (obj : DataObject Value) :
    (pred.matchObj fmt obj = .ok true ↔ pred.Selects fmt obj) ↔
      selectorMatchs obj.labels pred.label ≠ .ok true ∨ Complete obj pred.field ∨
        selectorMatchs (attributeMap fmt obj pred.field) pred.field ≠ .ok true := by
  by_cases hcomplete : Complete obj pred.field
  · refine iff_of_true ?_ (Or.inr (Or.inl hcomplete))
    rw [matchObj_of_complete hcomplete]
    unfold SelectionPredicate.Selects
    rcases selectorMatchs obj.labels pred.label with err | matched
    · exact iff_of_false (fun heq => nomatch heq) fun h => nomatch h.1
    · cases matched
      · exact iff_of_false (fun heq => nomatch heq) fun h => nomatch h.1
      · exact (and_iff_right rfl).symm
  · rw [iff_false_left (matchObj_of_not_complete hcomplete), or_iff_right hcomplete]
    exact not_and_or

/-- **The metadata are not reached.** A node is asked for by its own name, and for a phase that its
JSON does not have to be another one. Both requirements hold, and neither selects it. -/
theorem metadata_not_matched :
    let fmt : Formats := ⟨fun _ => "", fun _ => "", fun _ => ""⟩
    let obj : DataObject Value := { objType := "node", tenant := "acme", nameSpace := "ns", name := "a",
                                    object := .object [("state", .string "Ready")] }
    let named : SelectionPredicate := ⟨[], [⟨"metadata.name".toList, .equals, ["a".toList]⟩]⟩
    let other : SelectionPredicate := ⟨[], [⟨"phase".toList, .notEquals, ["Failed".toList]⟩]⟩
    (named.matchObj fmt obj = .ok false ∧ named.Selects fmt obj ∧
        ¬ (named.matchObj fmt obj = .ok true ↔ named.Selects fmt obj)) ∧
      (other.matchObj fmt obj = .ok false ∧ other.Selects fmt obj ∧
        ¬ (other.matchObj fmt obj = .ok true ↔ other.Selects fmt obj)) := by
  intro fmt obj named other
  have hnamed : named.matchObj fmt obj = .ok false := by decide +kernel
  have hselects : named.Selects fmt obj := ⟨rfl, by decide +kernel⟩
  have hother : other.matchObj fmt obj = .ok false := by decide +kernel
  have hselects' : other.Selects fmt obj := ⟨rfl, by decide +kernel⟩
  refine ⟨⟨hnamed, hselects, fun h => ?_⟩, hother, hselects', fun h => ?_⟩
  · cases hnamed.symm.trans (h.mpr hselects)
  · cases hother.symm.trans (h.mpr hselects')

end Match

end Inferx.Selector
