import Inferx.Lib.Runs
import Inferx.Gateway.Metering

/-!
# Models on OpenRouter

The rows of the table `Endpoints`, as far as they are listed on OpenRouter. A row is
listed once it is complete, and is unlisted after it has been taken offline. The calls
that do so read the row, check it, and write it, with a statement each; a call's next
statement is a `Stmt`, and the statements of calls at the same time come in any order.

Columns that the checks do not read are left out. What a call asks of other services
before its first statement may only make it fail.
-/

namespace Inferx.Gateway.Listing

/-! ## Texts -/

/-- `str::trim` of a text. -/
def trimText (s : String) : String := String.ofList (trim s.toList)

/-- Is there nothing but white space? -/
def isBlank (s : String) : Bool := (trim s.toList).isEmpty

/-- A column that is set to something. -/
def isSet : Option String → Bool
  | some s => !isBlank s
  | none => false

/-- SQL's `trim(s) = ''`, which looks for blanks alone. -/
def isSpaces (s : String) : Bool := s.toList.all (· == ' ')

/-- `looks_like_hf_repo_id` -/
def looksLikeHfRepoId (s : String) : Bool :=
  let l := trim s.toList
  if l.isEmpty || l.any isWhiteSpace then false
  else
    match l.splitOn '/' with
    | [author, name] => !author.isEmpty && !name.isEmpty
    | _ => false

/-! ## Rows -/

/-- `EndpointMetadata`, of which the listing reads one column. -/
structure EndpointMetadata where
  contextLength : Option ℤ

/-- `EndpointOpenRouterMetadata` -/
structure EndpointOpenRouterMetadata where
  huggingFaceId : Option String := none
  quantization : Option String := none
  inputModalities : Option (List String) := none
  outputModalities : Option (List String) := none
  contextLength : Option ℤ := none
  maxOutputLength : Option ℤ := none
  pricing : Option Value := none
  supportedSamplingParameters : Option (List String) := none
  supportedFeatures : Option (List String) := none
  openrouterSlug : Option String := none

/-- `ListedEndpoint`: a row. -/
structure ListedEndpoint extends EndpointOpenRouterMetadata where
  slug : String
  orListed : Bool := false
  orIsReady : Option Bool := none

/-- The table, by slug. -/
abbrev Endpoints : Type := BTreeMap String ListedEndpoint

/-! ## The checks -/

/-- `IsValidPricingTier` -/
def isValidPricingTier (tier : Value) : Bool :=
  match tier.asObject with
  | none => false
  | some obj => ((obj.get "prompt").bind Value.asStr).isSome && ((obj.get "completion").bind Value.asStr).isSome

/-- `IsValidPricing` -/
def isValidPricing : Value → Bool
  | .object o => isValidPricingTier (.object o)
  | .array tiers => !tiers.isEmpty && decide (tiers.length ≤ 2) && tiers.all isValidPricingTier
  | _ => false

/-- A list that is there and not empty. -/
def nonemptyVec : Option (List String) → Bool
  | some items => !items.isEmpty
  | none => false

/-- The problems with the pricing. -/
def pricingProblems : Option Value → List String
  | some p => if isValidPricing p then []
    else ["pricing (must be a tier object/array with string prompt+completion)"]
  | none => ["pricing"]

/-- The problems that `ValidateOpenRouterListing` finds. -/
def listingProblems (row : ListedEndpoint) : List String :=
  (if isSet row.huggingFaceId then []
    else ["hugging_face_id (required — provenance + auto-discovery join key)"]) ++
  (if nonemptyVec row.inputModalities then [] else ["input_modalities (null/empty — set real values)"]) ++
  (if nonemptyVec row.outputModalities then [] else ["output_modalities (null/empty — set real values)"]) ++
  (if isSet row.quantization then [] else ["quantization (documented enum value required)"]) ++
  (if row.contextLength.isSome then [] else ["context_length"]) ++
  (if row.maxOutputLength.isSome then [] else ["max_output_length"]) ++
  pricingProblems row.pricing ++
  (if row.supportedSamplingParameters.isSome then [] else ["supported_sampling_parameters"]) ++
  (if row.supportedFeatures.isSome then [] else ["supported_features"])

/-- `ValidateOpenRouterListing` -/
def validateOpenRouterListing (row : ListedEndpoint) : Except String Unit :=
  if (listingProblems row).isEmpty then .ok ()
  else .error ("endpoint " ++ row.slug ++ " is missing/invalid OpenRouter-required fields: " ++
    String.intercalate ", " (listingProblems row))

/-- `MergeListingMetadata` -/
def mergeListingMetadata (existing : ListedEndpoint) (metadata : EndpointOpenRouterMetadata) : ListedEndpoint :=
  { existing with toEndpointOpenRouterMetadata := metadata }

/-! ## Statements -/

namespace Endpoints

variable (t : Endpoints) (slug : String)

/-- `INSERT … ON CONFLICT (slug) DO UPDATE` -/
def upsert (f : ListedEndpoint → ListedEndpoint) : Endpoints := t.insert slug (f (t[slug]?.getD { slug }))

/-- `UPDATE … WHERE slug = $1` and some more -/
def update (p : ListedEndpoint → Bool) (f : ListedEndpoint → ListedEndpoint) : Endpoints :=
  match t[slug]? with
  | some row => if p row then t.insert slug (f row) else t
  | none => t

/-- `UpsertEndpointMetadata` -/
def upsertEndpointMetadata (metadata : EndpointMetadata) : Endpoints :=
  t.upsert slug fun row => { row with contextLength := metadata.contextLength }

/-- `SqlSecret::PublishEndpoint`, which writes some more of the columns that are left out -/
def publishEndpoint (metadata : EndpointMetadata) : Endpoints :=
  t.upsert slug fun row => { row with contextLength := metadata.contextLength }

/-- `SetEndpointHuggingFaceIdIfEmpty` -/
def setEndpointHuggingFaceIdIfEmpty (hfId : String) : Endpoints :=
  t.update slug (fun row => row.huggingFaceId.all isSpaces) fun row => { row with huggingFaceId := some hfId }

/-- `SqlSecret::SaveEndpointOpenRouterMetadata` -/
def saveEndpointOpenRouterMetadata (metadata : EndpointOpenRouterMetadata) : Endpoints :=
  t.upsert slug fun row => { row with toEndpointOpenRouterMetadata := metadata }

/-- `SetEndpointListed` -/
def setEndpointListed (openrouterSlug : Option String) : Endpoints :=
  t.update slug (fun _ => true) fun row => { row with orListed := true, orIsReady := some true, openrouterSlug }

/-- `SetEndpointOpenRouterReady` -/
def setEndpointOpenRouterReady (ready : Bool) : Endpoints :=
  t.update slug (fun row => row.orListed) fun row => { row with orIsReady := some ready }

/-- `SetEndpointUnlisted` -/
def setEndpointUnlisted : Endpoints :=
  t.update slug (fun _ => true) fun row => { row with orListed := false, orIsReady := some false }

end Endpoints

/-- The next statement of a call. -/
inductive Stmt where
  /-- of `SaveEndpointMetadata` -/
  | upsertEndpointMetadata (slug : String) (metadata : EndpointMetadata)
  /-- of an attempt of `PublishEndpoint`; the model's path is that of the function, if any -/
  | publishEndpoint (slug : String) (metadata : EndpointMetadata) (modelPath : Option String)
  | setEndpointHuggingFaceIdIfEmpty (slug hfId : String)
  /-- `GetEndpointForListing` of `SaveEndpointOpenRouterMetadata` -/
  | getForSave (slug : String) (metadata : EndpointOpenRouterMetadata)
  | saveEndpointOpenRouterMetadata (slug : String) (toStore : EndpointOpenRouterMetadata)
  /-- `GetEndpointForListing` of `ListOnOpenRouter` -/
  | getForList (slug : String)
  | setEndpointListed (slug openrouterSlug : String)
  /-- of `TakeOfflineOnOpenRouter` -/
  | setEndpointOpenRouterReady (slug : String)
  /-- `GetEndpointForListing` of `UnlistFromOpenRouter` -/
  | getForUnlist (slug : String)
  | setEndpointUnlisted (slug : String)

/-- Where a call begins. -/
def Stmt.isFirst : Stmt → Bool
  | .upsertEndpointMetadata _ _ | .publishEndpoint _ _ _ | .getForSave _ _ | .getForList _
  | .setEndpointOpenRouterReady _ | .getForUnlist _ => true
  | .setEndpointHuggingFaceIdIfEmpty _ _ | .saveEndpointOpenRouterMetadata _ _ | .setEndpointListed _ _
  | .setEndpointUnlisted _ => false

/-- A slug that has been set, without white space around it. -/
def resolvedSlug (slug : Option String) : Option String := (slug.map trimText).filter fun s => !s.isEmpty

/-- The guard of the live catalog: a save must not make a listed row invalid. -/
def guardSave (slug : String) (existing : Option ListedEndpoint) (toStore : EndpointOpenRouterMetadata) : Option Stmt :=
  match existing with
  | some existing =>
    if existing.orListed && !(validateOpenRouterListing (mergeListingMetadata existing toStore)).isOk then none
    else some (.saveEndpointOpenRouterMetadata slug toStore)
  | none => some (.saveEndpointOpenRouterMetadata slug toStore)

/-- What `SaveEndpointOpenRouterMetadata` does with the row that it has read. -/
def checkSave (slug : String) (existing : Option ListedEndpoint) (metadata : EndpointOpenRouterMetadata) :
    Option Stmt :=
  let storedSlug := (existing.bind fun e => e.openrouterSlug).filter fun s => !isBlank s
  let submittedSlug := resolvedSlug metadata.openrouterSlug
  -- a slug that is new is validated, which needs the id of the weights
  if submittedSlug ≠ storedSlug ∧ submittedSlug.isSome ∧ isSet metadata.huggingFaceId = false then none
  else
    guardSave slug existing
      { metadata with openrouterSlug := if submittedSlug = storedSlug then storedSlug else submittedSlug }

/-- What `ListOnOpenRouter` does with the row. -/
def checkList (slug : String) (row : Option ListedEndpoint) : Option Stmt := do
  let row ← row
  if (validateOpenRouterListing row).isOk then
    let openrouterSlug ← resolvedSlug row.openrouterSlug
    return .setEndpointListed slug openrouterSlug
  else none

/-- What `UnlistFromOpenRouter` does with the row. -/
def checkUnlist (slug : String) (row : Option ListedEndpoint) : Option Stmt := do
  let row ← row
  if row.orListed && row.orIsReady == some false then return .setEndpointUnlisted slug else none

/-- The statement runs: the table after it, and how the call goes on. -/
def Stmt.run (t : Endpoints) : Stmt → Endpoints × Option Stmt
  | .upsertEndpointMetadata slug metadata => (t.upsertEndpointMetadata slug metadata, none)
  | .publishEndpoint slug metadata modelPath =>
    (t.publishEndpoint slug metadata,
      (modelPath.filter looksLikeHfRepoId).map fun path => .setEndpointHuggingFaceIdIfEmpty slug (trimText path))
  | .setEndpointHuggingFaceIdIfEmpty slug hfId => (t.setEndpointHuggingFaceIdIfEmpty slug hfId, none)
  | .getForSave slug metadata => (t, checkSave slug t[slug]? metadata)
  | .saveEndpointOpenRouterMetadata slug toStore => (t.saveEndpointOpenRouterMetadata slug toStore, none)
  | .getForList slug => (t, checkList slug t[slug]?)
  | .setEndpointListed slug openrouterSlug => (t.setEndpointListed slug (some openrouterSlug), none)
  | .setEndpointOpenRouterReady slug => (t.setEndpointOpenRouterReady slug false, none)
  | .getForUnlist slug => (t, checkUnlist slug t[slug]?)
  | .setEndpointUnlisted slug => (t.setEndpointUnlisted slug, none)

/-- The row that a statement is about. -/
def Stmt.slug : Stmt → String
  | .upsertEndpointMetadata slug _ | .publishEndpoint slug _ _ | .setEndpointHuggingFaceIdIfEmpty slug _
  | .getForSave slug _ | .saveEndpointOpenRouterMetadata slug _ | .getForList slug | .setEndpointListed slug _
  | .setEndpointOpenRouterReady slug | .getForUnlist slug | .setEndpointUnlisted slug => slug

/-! ## Runs -/

/-- The table with the calls under way. -/
structure ListingState where
  rows : Endpoints := ∅
  calls : List Stmt := []
  /-- `or_is_ready` of each row that was unlisted, before it was -/
  unlisted : List (Option Bool) := []

/-- What can happen next. -/
inductive ListingInput where
  /-- a call comes; only first statements do -/
  | call (c : Stmt)
  /-- the next statement of the `i`-th call runs -/
  | run (i : ℕ)
  /-- the `i`-th call fails -/
  | fail (i : ℕ)

namespace ListingState

variable (s : ListingState)

/-- `or_is_ready` of a row that is unlisted by a statement. -/
def unlisting (before after : Endpoints) (slug : String) : List (Option Bool) :=
  match before[slug]?, after[slug]? with
  | some row, some row' => if row.orListed && !row'.orListed then [row.orIsReady] else []
  | _, _ => []

def next : ListingInput → Option ListingState
  | .call c => if c.isFirst then some { s with calls := c :: s.calls } else none
  | .run i => s.calls[i]?.map fun c =>
      let (rows, more) := c.run s.rows
      { rows, calls := more.toList ++ s.calls.eraseIdx i
        unlisted := unlisting s.rows rows c.slug ++ s.unlisted }
  | .fail i => some { s with calls := s.calls.eraseIdx i }

/-- Nothing is listed at first. -/
def Started : Prop :=
  s.calls = [] ∧ s.unlisted = [] ∧ ∀ (slug : String) row, s.rows[slug]? = some row → row.orListed = false

/-- **Listed models are complete**, and are taken offline before they are unlisted. -/
structure Complete : Prop where
  valid : ∀ (slug : String) row, s.rows[slug]? = some row → row.orListed = true →
    validateOpenRouterListing row = .ok () ∧ isSet row.openrouterSlug = true
  offline : ∀ ready ∈ s.unlisted, ready = some false

/-- The statements that do no harm to the rows that are listed when they run: the
metadata has a context length; what is saved passes the check and has a slug; a row that
becomes listed still passes the check; and a row that is unlisted is still offline. -/
def Harmless (t : Endpoints) : Stmt → Prop
  | .upsertEndpointMetadata slug metadata | .publishEndpoint slug metadata _ =>
    ∀ row ∈ t[slug]?, row.orListed = true → metadata.contextLength.isSome = true
  | .saveEndpointOpenRouterMetadata slug toStore => ∀ row ∈ t[slug]?, row.orListed = true →
    validateOpenRouterListing (mergeListingMetadata row toStore) = .ok () ∧ isSet toStore.openrouterSlug = true
  | .setEndpointListed slug _ => ∀ row ∈ t[slug]?, validateOpenRouterListing row = .ok ()
  | .setEndpointUnlisted slug => ∀ row ∈ t[slug]?, row.orListed = true → row.orIsReady = some false
  | _ => True

/-- Does the next step do no harm? -/
def Orderly : ListingInput → Prop
  | .run i => ∀ c ∈ s.calls[i]?, Harmless s.rows c
  | _ => True

end ListingState

end Inferx.Gateway.Listing
