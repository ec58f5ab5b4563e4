import Mathlib.Data.List.TakeWhile
import Inferx.Gateway.Listing

/-!
# Listed models are complete

A statement writes one row. What it has to leave alone is said for each of them
(`Harmless`), and is exactly what is needed.
-/

namespace Inferx.Gateway.Listing

/-! ## Texts -/

/-- What is left of a text is nothing if all of it is white space. -/
theorem trim_eq_nil {l : List Char} : trim l = [] ↔ ∀ c ∈ l, isWhiteSpace c = true := by
  unfold trim
  rw [List.reverse_eq_nil_iff, List.dropWhile_eq_nil_iff]
  constructor
  · intro h c hc
    by_contra hwhite
    -- the text from its first character that is no white space on
    have hmem : c ∈ l.dropWhile isWhiteSpace := by
      rcases List.mem_append.mp ((List.takeWhile_append_dropWhile (p := isWhiteSpace) (l := l)).symm ▸ hc) with h₁ | h₁
      · exact absurd (List.mem_takeWhile_imp h₁) hwhite
      · exact h₁
    exact hwhite (h c (List.mem_reverse.mpr hmem))
  · intro h c hc
    exact h c ((List.dropWhile_suffix _).subset (List.mem_reverse.mp hc))

/-- What is left of a text begins and ends with something else. -/
theorem exists_of_trim {l : List Char} (h : trim l ≠ []) : ∃ c ∈ trim l, isWhiteSpace c = false := by
  by_contra hnone
  simp only [not_exists, not_and, Bool.not_eq_false] at hnone
  unfold trim at h hnone
  rw [Ne, List.reverse_eq_nil_iff] at h
  obtain ⟨c, rest, hrest⟩ := List.exists_cons_of_ne_nil h
  have hc := List.head_dropWhile_not isWhiteSpace h
  simp only [hrest, List.head_cons] at hc
  have hwhite := hnone c (by rw [hrest]; simp)
  rw [hwhite] at hc
  cases hc

theorem isBlank_eq_true {s : String} : isBlank s = true ↔ ∀ c ∈ s.toList, isWhiteSpace c = true := by
  rw [isBlank, List.isEmpty_iff, trim_eq_nil]

/-- A slug that has been resolved is set. -/
theorem isSet_of_resolvedSlug {o : Option String} {slug : String} (h : resolvedSlug o = some slug) :
    isSet (some slug) = true := by
  obtain ⟨hmap, hne⟩ := Option.filter_eq_some_iff.mp h
  obtain ⟨s, -, rfl⟩ := Option.map_eq_some_iff.mp hmap
  rw [isSet, Bool.not_eq_true', ← Bool.not_eq_true, isBlank_eq_true]
  intro hblank
  rw [trimText, String.toList_ofList] at hblank
  have htrim : trim s.toList ≠ [] := by
    intro hnil
    rw [trimText, hnil] at hne
    cases hne
  obtain ⟨c, hc, hwhite⟩ := exists_of_trim htrim
  rw [hblank c hc] at hwhite
  cases hwhite

/-- An id that is set is not of blanks alone. -/
theorem isSpaces_of_isSet {s : String} (h : isSet (some s) = true) : isSpaces s = false := by
  rw [← Bool.not_eq_true]
  intro hspaces
  have hblank : isBlank s = true := by
    rw [isBlank_eq_true]
    intro c hc
    obtain rfl := eq_of_beq (List.all_eq_true.mp hspaces c hc)
    decide
  rw [isSet, hblank] at h
  cases h

/-! ## Rows -/

/-- What a row needs to be listed. -/
structure Required (metadata : EndpointOpenRouterMetadata) : Prop where
  huggingFaceId : isSet metadata.huggingFaceId = true
  inputModalities : nonemptyVec metadata.inputModalities = true
  outputModalities : nonemptyVec metadata.outputModalities = true
  quantization : isSet metadata.quantization = true
  contextLength : metadata.contextLength.isSome = true
  maxOutputLength : metadata.maxOutputLength.isSome = true
  pricing : metadata.pricing.any isValidPricing = true
  supportedSamplingParameters : metadata.supportedSamplingParameters.isSome = true
  supportedFeatures : metadata.supportedFeatures.isSome = true

/-- **The check** passes the rows with all that is needed. -/
theorem validate_eq_ok {row : ListedEndpoint} :
    validateOpenRouterListing row = .ok () ↔ Required row.toEndpointOpenRouterMetadata := by
  have hok : validateOpenRouterListing row = .ok () ↔ listingProblems row = [] := by
    unfold validateOpenRouterListing
    rw [← List.isEmpty_iff]
    split
    next h => exact ⟨fun _ => h, fun _ => rfl⟩
    next h => exact ⟨fun h' => (nomatch h'), fun h' => absurd h' h⟩
  have hone : ∀ (b : Bool) (text : String), (if b then [] else [text]) = [] ↔ b = true := by
    intro b text
    cases b <;> simp
  have hpricing : ∀ o : Option Value, pricingProblems o = [] ↔ o.any isValidPricing = true := by
    intro o
    cases o with
    | none => simp [pricingProblems]
    | some p => exact hone (isValidPricing p) _
  rw [hok]
  unfold listingProblems
  simp only [List.append_eq_nil_iff, hone, hpricing]
  constructor
  · rintro ⟨⟨⟨⟨⟨⟨⟨⟨h₁, h₂⟩, h₃⟩, h₄⟩, h₅⟩, h₆⟩, h₇⟩, h₈⟩, h₉⟩
    exact ⟨h₁, h₂, h₃, h₄, h₅, h₆, h₇, h₈, h₉⟩
  · rintro ⟨h₁, h₂, h₃, h₄, h₅, h₆, h₇, h₈, h₉⟩
    exact ⟨⟨⟨⟨⟨⟨⟨⟨h₁, h₂⟩, h₃⟩, h₄⟩, h₅⟩, h₆⟩, h₇⟩, h₈⟩, h₉⟩

/-- A row that may be listed. -/
def RowOk (row : ListedEndpoint) : Prop :=
  validateOpenRouterListing row = .ok () ∧ isSet row.openrouterSlug = true

/-- The rows that are listed may be. -/
def Valid (t : Endpoints) : Prop :=
  ∀ (slug : String) row, t[slug]? = some row → row.orListed = true → RowOk row

/-- A complete row with another context length. -/
theorem rowOk_contextLength {row : ListedEndpoint} (h : RowOk row) (n : Option ℤ) :
    RowOk { row with contextLength := n } ↔ n.isSome = true := by
  unfold RowOk at h ⊢
  rw [validate_eq_ok] at h ⊢
  exact ⟨fun h' => h'.1.contextLength, fun hn => ⟨{ h.1 with contextLength := hn }, h.2⟩⟩

/-! ## Tables -/

section Tables

variable {t : Endpoints} {slug : String} {f : ListedEndpoint → ListedEndpoint} {p : ListedEndpoint → Bool}

/-- A row is written. -/
theorem valid_insert (h : Valid t) {row : ListedEndpoint} :
    Valid (t.insert slug row) ↔ (row.orListed = true → RowOk row) := by
  constructor
  · intro hvalid hlisted
    exact hvalid slug row (BTreeMap.get_insert_self ..) hlisted
  · intro hrow slug' row' hget hlisted
    rw [BTreeMap.get_insert] at hget
    split at hget
    next =>
      obtain rfl := Option.some.inj hget
      exact hrow hlisted
    next => exact h slug' row' hget hlisted

/-- An upsert that lists nothing. -/
theorem valid_upsert (h : Valid t) (hf : ∀ row, (f row).orListed = row.orListed) :
    Valid (t.upsert slug f) ↔ ∀ row ∈ t[slug]?, row.orListed = true → RowOk (f row) := by
  rw [Endpoints.upsert, valid_insert h, hf]
  rcases t[slug]? with _ | row
  · exact ⟨fun _ _ h => (nomatch h), fun _ h => (nomatch h)⟩
  · simp

theorem valid_update (h : Valid t) :
    Valid (t.update slug p f) ↔ ∀ row ∈ t[slug]?, p row = true → (f row).orListed = true → RowOk (f row) := by
  unfold Endpoints.update
  rcases t[slug]? with _ | row
  · exact ⟨fun _ _ h => (nomatch h), fun _ => h⟩
  · dsimp only
    split
    next hp => rw [valid_insert h]; simp [hp]
    next hp => simp [hp, h]

open ListingState in
/-- An upsert that lists nothing unlists nothing. -/
theorem unlisting_upsert (hf : ∀ row, (f row).orListed = row.orListed) : unlisting t (t.upsert slug f) slug = [] := by
  unfold unlisting Endpoints.upsert
  rw [BTreeMap.get_insert_self]
  rcases t[slug]? with _ | row
  · rfl
  · simp [hf]

open ListingState in
/-- An upsert that lists nothing does no harm if it leaves the listed rows complete. -/
theorem upsert_iff (h : Valid t) (hf : ∀ row, (f row).orListed = row.orListed) :
    (Valid (t.upsert slug f) ∧ ∀ ready ∈ unlisting t (t.upsert slug f) slug, ready = some false) ↔
      ∀ row ∈ t[slug]?, row.orListed = true → RowOk (f row) := by
  rw [valid_upsert h hf, unlisting_upsert hf]
  simp only [List.not_mem_nil, false_implies, implies_true, and_true]

open ListingState in
theorem mem_unlisting_update {ready : Option Bool} : ready ∈ unlisting t (t.update slug p f) slug ↔
    ∃ row ∈ t[slug]?, p row = true ∧ row.orListed = true ∧ (f row).orListed = false ∧ row.orIsReady = ready := by
  unfold unlisting Endpoints.update
  rcases ht : t[slug]? with _ | row
  · simp
  · dsimp only
    by_cases hp : p row = true
    · rw [if_pos hp, BTreeMap.get_insert_self]
      dsimp only
      split
      next hboth =>
        rw [Bool.and_eq_true, Bool.not_eq_true'] at hboth
        rw [List.mem_singleton]
        exact ⟨fun h => ⟨row, rfl, hp, hboth.1, hboth.2, h.symm⟩, fun ⟨_, h, _, _, _, heq⟩ => by cases h; exact heq.symm⟩
      next hnot =>
        refine ⟨fun h => absurd h List.not_mem_nil, fun ⟨_, h, _, hlisted, hun, _⟩ => ?_⟩
        cases h
        rw [hlisted, hun] at hnot
        exact absurd rfl hnot
    · rw [if_neg hp, ht]
      simp [hp]

end Tables

/-! ## Statements -/

namespace ListingState

/-- What is known of a call's next statement. -/
def Known : Stmt → Prop
  | .setEndpointListed _ openrouterSlug => isSet (some openrouterSlug) = true
  | _ => True

theorem eq_of_guardSave {slug : String} {existing : Option ListedEndpoint} {metadata : EndpointOpenRouterMetadata}
    {c : Stmt} (h : guardSave slug existing metadata = some c) :
    ∃ toStore, c = .saveEndpointOpenRouterMetadata slug toStore := by
  unfold guardSave at h
  split at h
  next =>
    split at h
    next => cases h
    next => exact ⟨metadata, (Option.some.inj h).symm⟩
  next => exact ⟨metadata, (Option.some.inj h).symm⟩

/-- The next statement of a call that has been checked. -/
theorem known_of_run {t : Endpoints} {c c' : Stmt} (h : (c.run t).2 = some c') : Known c' := by
  cases c with
  | upsertEndpointMetadata slug metadata => cases h
  | publishEndpoint slug metadata modelPath =>
    obtain ⟨path, -, rfl⟩ := Option.map_eq_some_iff.mp h
    trivial
  | setEndpointHuggingFaceIdIfEmpty slug hfId => cases h
  | getForSave slug metadata =>
    simp only [Stmt.run, checkSave] at h
    split at h
    next => cases h
    next =>
      obtain ⟨toStore, rfl⟩ := eq_of_guardSave h
      trivial
  | saveEndpointOpenRouterMetadata slug toStore => cases h
  | getForList slug =>
    obtain ⟨row, -, h⟩ := Option.bind_eq_some_iff.mp h
    split at h
    next =>
      obtain ⟨openrouterSlug, hslug, h⟩ := Option.bind_eq_some_iff.mp h
      obtain rfl := Option.some.inj h
      exact isSet_of_resolvedSlug hslug
    next => cases h
  | setEndpointListed slug openrouterSlug => cases h
  | setEndpointOpenRouterReady slug => cases h
  | getForUnlist slug =>
    obtain ⟨row, -, h⟩ := Option.bind_eq_some_iff.mp h
    split at h
    next =>
      obtain rfl := Option.some.inj h
      trivial
    next => cases h
  | setEndpointUnlisted slug => cases h

/-- A statement that only reads unlists nothing. -/
theorem unlisting_self (t : Endpoints) (slug : String) : ∀ ready ∈ unlisting t t slug, ready = some false := by
  intro ready hready
  unfold unlisting at hready
  rcases ht : t[slug]? with _ | row
  · simp only [ht, List.not_mem_nil] at hready
  · simp [ht] at hready

/-- The context length of a row is written. -/
theorem contextLength_iff {t : Endpoints} (h : Valid t) (slug : String) (metadata : EndpointMetadata) :
    (Valid (t.upsertEndpointMetadata slug metadata) ∧
      ∀ ready ∈ unlisting t (t.upsertEndpointMetadata slug metadata) slug, ready = some false) ↔
    ∀ row ∈ t[slug]?, row.orListed = true → metadata.contextLength.isSome = true := by
  refine (upsert_iff (f := fun row => { row with contextLength := metadata.contextLength }) h fun _ => rfl).trans ?_
  exact forall₃_congr fun row hrow hlisted => rowOk_contextLength (h slug row hrow hlisted) _

/-- **One statement**: it does no harm exactly if the listed rows stay complete and are
unlisted offline. -/
theorem harmless_iff {t : Endpoints} (h : Valid t) {c : Stmt} (hc : Known c) :
    (Valid (c.run t).1 ∧ ∀ ready ∈ unlisting t (c.run t).1 c.slug, ready = some false) ↔ Harmless t c := by
  cases c with
  | upsertEndpointMetadata slug metadata => exact contextLength_iff h slug metadata
  | publishEndpoint slug metadata modelPath => exact contextLength_iff h slug metadata
  | setEndpointHuggingFaceIdIfEmpty slug hfId =>
    refine ⟨fun _ => trivial, fun _ => ⟨(valid_update h).mpr fun row hrow hempty hlisted => ?_, fun ready hready => ?_⟩⟩
    · -- a listed row has an id already
      have hset := (validate_eq_ok.mp (h slug row hrow hlisted).1).huggingFaceId
      rcases hid : row.huggingFaceId with _ | id
      · rw [hid] at hset
        cases hset
      · rw [hid] at hset hempty
        rw [Option.all_some, isSpaces_of_isSet hset] at hempty
        cases hempty
    · obtain ⟨row, -, -, hlisted, hun, -⟩ := mem_unlisting_update.mp hready
      exact absurd (hlisted.symm.trans hun) (by decide)
  | getForSave slug metadata => exact ⟨fun _ => trivial, fun _ => ⟨h, unlisting_self t slug⟩⟩
  | saveEndpointOpenRouterMetadata slug toStore =>
    exact upsert_iff (f := fun row => { row with toEndpointOpenRouterMetadata := toStore }) h fun _ => rfl
  | getForList slug => exact ⟨fun _ => trivial, fun _ => ⟨h, unlisting_self t slug⟩⟩
  | setEndpointListed slug openrouterSlug =>
    simp only [Stmt.run, Stmt.slug, Harmless, Endpoints.setEndpointListed, valid_update h]
    constructor
    · intro hall row hrow
      have hok := (hall.1 row hrow trivial trivial).1
      rw [validate_eq_ok] at hok ⊢
      exact { hok with }
    · refine fun hall => ⟨fun row hrow _ _ => ⟨?_, hc⟩, fun ready hready => ?_⟩
      · have hok := hall row hrow
        rw [validate_eq_ok] at hok ⊢
        exact { hok with }
      · obtain ⟨row, -, -, -, hun, -⟩ := mem_unlisting_update.mp hready
        cases hun
  | setEndpointOpenRouterReady slug =>
    refine ⟨fun _ => trivial, fun _ => ⟨(valid_update h).mpr fun row hrow _ hlisted => ?_, fun ready hready => ?_⟩⟩
    · have hok := h slug row hrow hlisted
      refine ⟨?_, hok.2⟩
      rw [validate_eq_ok]
      exact validate_eq_ok.mp hok.1
    · obtain ⟨row, -, -, hlisted, hun, -⟩ := mem_unlisting_update.mp hready
      exact absurd (hlisted.symm.trans hun) (by decide)
  | getForUnlist slug => exact ⟨fun _ => trivial, fun _ => ⟨h, unlisting_self t slug⟩⟩
  | setEndpointUnlisted slug =>
    simp only [Stmt.run, Stmt.slug, Harmless, Endpoints.setEndpointUnlisted, valid_update h]
    constructor
    · intro hall row hrow hlisted
      exact hall.2 _ (mem_unlisting_update.mpr ⟨row, hrow, rfl, hlisted, rfl, rfl⟩)
    · refine fun hall => ⟨fun row _ _ hlisted => (nomatch hlisted), fun ready hready => ?_⟩
      obtain ⟨row, hrow, -, hlisted, -, rfl⟩ := mem_unlisting_update.mp hready
      exact hall row hrow hlisted

/-! ## Runs -/

variable {s s' : ListingState}

/-- What holds in every state. -/
structure Inv (s : ListingState) : Prop where
  complete : s.Complete
  known : ∀ c ∈ s.calls, Known c

theorem Inv.started (h : s.Started) : Inv s := by
  obtain ⟨hcalls, hunlisted, hrows⟩ := h
  refine ⟨⟨fun slug row hrow hlisted => ?_, ?_⟩, ?_⟩
  · rw [hrows slug row hrow] at hlisted
    cases hlisted
  · simp [hunlisted]
  · simp [hcalls]

/-- **One step**: the next state is complete exactly if the step does no harm. -/
theorem Inv.complete_next (h : Inv s) {i : ListingInput} (hnext : s.next i = some s') : s'.Complete ↔ s.Orderly i := by
  cases i with
  | call c =>
    simp only [ListingState.next] at hnext
    split at hnext
    next =>
      obtain rfl := Option.some.inj hnext
      exact ⟨fun _ => trivial, fun _ => ⟨h.complete.valid, h.complete.offline⟩⟩
    next => cases hnext
  | run i =>
    obtain ⟨c, hc, rfl⟩ := Option.map_eq_some_iff.mp hnext
    have hiff := harmless_iff h.complete.valid (h.known c (List.mem_of_getElem? hc))
    have horderly : s.Orderly (.run i) ↔ Harmless s.rows c := by
      simp only [Orderly, hc]
      exact ⟨fun h => h c rfl, fun h c' hc' => (Option.some.inj hc') ▸ h⟩
    rw [horderly, ← hiff]
    constructor
    · exact fun hcomplete => ⟨hcomplete.valid, fun ready hready => hcomplete.offline ready (List.mem_append_left _ hready)⟩
    · refine fun hboth => ⟨hboth.1, fun ready hready => ?_⟩
      rcases List.mem_append.mp hready with hready | hready
      · exact hboth.2 ready hready
      · exact h.complete.offline ready hready
  | fail i =>
    obtain rfl := Option.some.inj hnext
    exact ⟨fun _ => trivial, fun _ => ⟨h.complete.valid, h.complete.offline⟩⟩

theorem Inv.next (h : Inv s) {i : ListingInput} (hok : s.Orderly i) (hnext : s.next i = some s') : Inv s' := by
  refine ⟨(h.complete_next hnext).mpr hok, fun c hc => ?_⟩
  cases i with
  | call c₀ =>
    simp only [ListingState.next] at hnext
    split at hnext
    next hfirst =>
      obtain rfl := Option.some.inj hnext
      rcases List.mem_cons.mp hc with rfl | hc
      -- a first statement is not the one that lists
      · cases c <;> trivial
      · exact h.known c hc
    next => cases hnext
  | run i =>
    obtain ⟨c₀, -, rfl⟩ := Option.map_eq_some_iff.mp hnext
    rcases List.mem_append.mp hc with hc | hc
    · exact known_of_run (Option.mem_toList.mp hc)
    · exact h.known c (List.mem_of_mem_eraseIdx hc)
  | fail i =>
    obtain rfl := Option.some.inj hnext
    exact h.known c (List.mem_of_mem_eraseIdx hc)

/-- **Listed models are complete** in every run whose statements do no harm to the rows that
are listed; and the next statement keeps them so exactly if it does none. -/
theorem complete_iff_orderly (h : Reach ListingState.next Started Orderly s) :
    s.Complete ∧ ∀ i s', s.next i = some s' → (s'.Complete ↔ s.Orderly i) := by
  have hinv := h.invariant (fun _ => Inv.started) fun _ _ _ hinv hok hnext => hinv.next hok hnext
  exact ⟨hinv.complete, fun _ _ hnext => hinv.complete_next hnext⟩

/-! ## Two runs -/

instance (t : Endpoints) : ∀ c, Decidable (Harmless t c)
  | .upsertEndpointMetadata _ _ | .publishEndpoint _ _ _ | .setEndpointUnlisted _ =>
    inferInstanceAs (Decidable (∀ _ ∈ _, _ → _))
  | .saveEndpointOpenRouterMetadata _ _ => inferInstanceAs (Decidable (∀ _ ∈ _, _ → _ ∧ _))
  | .setEndpointListed _ _ => inferInstanceAs (Decidable (∀ _ ∈ _, _))
  | .setEndpointHuggingFaceIdIfEmpty _ _ | .getForSave _ _ | .getForList _ | .setEndpointOpenRouterReady _
  | .getForUnlist _ => .isTrue trivial

instance : ∀ i, Decidable (s.Orderly i)
  | .run _ => inferInstanceAs (Decidable (∀ _ ∈ _, _))
  | .call _ | .fail _ => .isTrue trivial

/-- All that a listing needs. -/
def fullMetadata : EndpointOpenRouterMetadata where
  huggingFaceId := some "meta-llama/Llama-3.1-8B"
  quantization := some "bf16"
  inputModalities := some ["text"]
  outputModalities := some ["text"]
  contextLength := some 131072
  maxOutputLength := some 8192
  pricing := some (.object [("prompt", .string "0.1"), ("completion", .string "0.2")])
  supportedSamplingParameters := some []
  supportedFeatures := some []
  openrouterSlug := some "meta-llama/llama-3.1-8b"

/-- A model is saved and listed. -/
def listed : List ListingInput :=
  [.call (.getForSave "m" fullMetadata), .run 0, .run 0, .call (.getForList "m"), .run 0, .run 0]

/-- It is then taken offline and unlisted. -/
theorem complete_unlisted : ∃ s : ListingState, s.Complete ∧ s.unlisted = [some false] := by
  have hrun : ((exec ListingState.next Orderly {} (listed ++ [.call (.setEndpointOpenRouterReady "m"), .run 0,
      .call (.getForUnlist "m"), .run 0, .run 0])).map ListingState.unlisted) = some [some false] := by decide +kernel
  obtain ⟨s, hs, heq⟩ := Option.map_eq_some_iff.mp hrun
  have hstart : Started {} := ⟨rfl, rfl, fun slug row h => by simp at h⟩
  exact ⟨s, (complete_iff_orderly (Reach.of_exec _ _ (.init hstart) hs)).1, heq⟩

/-- The metadata of a listed model is saved without a context length. -/
theorem listed_without_context : ∃ s : ListingState,
    Reach ListingState.next Started (fun _ _ => True) s ∧ ¬ s.Complete := by
  have hrun : ((exec ListingState.next (fun _ _ => True) {} (listed ++
      [.call (.upsertEndpointMetadata "m" ⟨none⟩), .run 0])).map fun s =>
        s.rows["m"]?.map fun row => (row.orListed, row.contextLength)) = some (some (true, none)) := by decide +kernel
  obtain ⟨s, hs, heq⟩ := Option.map_eq_some_iff.mp hrun
  obtain ⟨row, hrow, hvals⟩ := Option.map_eq_some_iff.mp heq
  have hstart : Started {} := ⟨rfl, rfl, fun slug row h => by simp at h⟩
  refine ⟨s, Reach.of_exec _ _ (.init hstart) hs, fun hcomplete => ?_⟩
  have hok := (hcomplete.valid "m" row hrow (congrArg Prod.fst hvals)).1
  have hnone : row.contextLength = none := congrArg Prod.snd hvals
  have hsome := (validate_eq_ok.mp hok).contextLength
  rw [hnone] at hsome
  cases hsome

end ListingState

end Inferx.Gateway.Listing
