import GraphApi.Proofs.Api.Registration

/-!
# Which input types are generated

The input types of a node type are generated under guards of their own, and fields refer to them
under others. `Catalog.provides` lists the guards once, and a provided type is registered
(`Catalog.registers_of_provides`).
-/

namespace GraphApi

open List Bool

/-- The input types of a node type. -/
inductive NodeInput where
  | filter | ordering | selection | condition | keys | create | update
deriving DecidableEq, Repr

def NodeInput.name : NodeInput → Name → Name
  | filter => filterName
  | ordering => orderingName
  | selection => selectionName
  | condition => whereName
  | keys => keysName
  | create => createName
  | update => updateName

def NodeInput.ending : NodeInput → Name
  | filter => "Filter"
  | ordering => "Ordering"
  | selection => "Input"
  | condition => "Where"
  | keys => "Keys"
  | create => "Create"
  | update => "Update"

lemma NodeInput.name_eq (input : NodeInput) (type : Name) :
    input.name type = "_" ++ type ++ input.ending := by
  cases input <;> rfl

namespace Catalog

variable {type value : Name} {cat : Catalog} {defn owner : TypeDef} {fd : FieldDef}
  {rel : Relationship}

/-- Whether an input type is generated for a type: the filter and the ordering with the query API,
the others with the mutation API, and all of those but the selection in experimental mode only. -/
def provides (cat : Catalog) (type : Name) : NodeInput → Bool
  | .filter => cat.augments .query type
  | .ordering => cat.augments .query type && cat.hasOrdering type
  | .selection => cat.canMutate type
  | .condition | .keys => cat.settings.experimental && cat.canMutate type
  | .create =>
    let infos := cat.fieldInfos type
    cat.settings.experimental && cat.augments .mutation type && cat.isObject type &&
      !(createArguments infos (primaryKey infos)).isEmpty
  | .update =>
    let infos := cat.fieldInfos type
    cat.settings.experimental && cat.canMutate type &&
      !(updateMembers infos (uniqueKeyFields infos (primaryKey infos))).isEmpty

/-! ## Orderings -/

lemma fieldInfos_eq (h : cat.types.get? defn.name = some defn) :
    cat.fieldInfos defn.name = (cat.membersOf defn).map (·.describe cat.types) := by
  simp [fieldInfos, membersOf, h]

lemma ordering_ne_nil_iff (h : cat.types.get? defn.name = some defn) :
    (nodeInputs cat defn).ordering ≠ [] ↔ cat.hasOrdering defn.name := by
  have hvs (info : FieldInfo) : info.ordering = [] ↔ info.isOrderable = false := by
    simp [FieldInfo.ordering, orderingValues]
  have hobj : cat.isObject defn.name = defn.isObject := by simp [isObject, h]
  rw [hasOrdering, hobj, fieldInfos_eq h, nodeInputs_eq, ne_eq, eraseDups_eq_nil_iff]
  cases defn.isObject <;> simp [ordering_fieldGain, hvs, orderingValues]

/-! ## Provided types -/

lemma node_of_canMutate (hs : cat.IsSorted)
    (h : cat.canMutate type) : ∃ owner ∈ cat.nodes, ∃ key, owner.name = type ∧ owner.isObject ∧
      cat.augments .mutation type ∧ primaryKey (cat.fieldInfos type) = some key := by
  simp only [canMutate, and_eq_true] at h
  obtain ⟨owner, hno, hn, -, hg⟩ := node_of_augments hs h.1.1
  obtain ⟨key, hk⟩ := Option.isSome_iff_exists.mp h.2
  exact ⟨owner, hno, key, hn, by simpa [isObject, hg] using h.1.2, h.1.1, hk⟩

/-- An input type that is provided is registered. -/
theorem registers_of_provides (hs : cat.IsSorted) {input : NodeInput}
    (h : cat.provides type input) : ∃ defn, cat.Registers defn ∧ defn.name = input.name type := by
  cases input with
  | filter =>
    obtain ⟨owner, hno, rfl, -, -⟩ := node_of_augments hs h
    exact ⟨_, .filter hno h, (nodeInputs_names cat owner).1⟩
  | ordering =>
    simp only [provides, and_eq_true] at h
    obtain ⟨owner, hno, rfl, -, hg⟩ := node_of_augments hs h.1
    exact ⟨_, .ordering hno h.1 ((ordering_ne_nil_iff hg).mpr h.2), (nodeInputs_names cat owner).2⟩
  | selection =>
    obtain ⟨owner, hno, key, rfl, hobj, haug, hk⟩ := node_of_canMutate hs h
    exact ⟨_, .selection hno hobj haug hk, rfl⟩
  | condition =>
    simp only [provides, and_eq_true] at h
    obtain ⟨owner, hno, key, rfl, hobj, haug, hk⟩ := node_of_canMutate hs h.2
    exact ⟨_, .input hno hobj haug h.1
      (mem_types_inputMutations.mpr (.inr ⟨by simp [hk], .inl rfl⟩)), rfl⟩
  | keys =>
    simp only [provides, and_eq_true] at h
    obtain ⟨owner, hno, key, rfl, hobj, haug, hk⟩ := node_of_canMutate hs h.2
    exact ⟨_, .input hno hobj haug h.1
      (mem_types_inputMutations.mpr (.inr ⟨by simp [hk], .inr (.inl rfl)⟩)), rfl⟩
  | create =>
    simp only [provides, and_eq_true, not_eq_true', isEmpty_eq_false_iff] at h
    obtain ⟨⟨⟨hexp, haug⟩, hobj⟩, hcr⟩ := h
    obtain ⟨owner, hno, rfl, -, hg⟩ := node_of_augments hs haug
    have hoo : owner.isObject := by simpa [isObject, hg] using hobj
    exact ⟨_, .input hno hoo haug hexp (mem_types_inputMutations.mpr (.inl ⟨hcr, rfl⟩)), rfl⟩
  | update =>
    simp only [provides, and_eq_true, not_eq_true', isEmpty_eq_false_iff] at h
    obtain ⟨⟨hexp, hmu⟩, hms⟩ := h
    obtain ⟨owner, hno, key, rfl, hobj, haug, hk⟩ := node_of_canMutate hs hmu
    exact ⟨_, .input hno hobj haug hexp
      (mem_types_inputMutations.mpr (.inr ⟨by simp [hk], .inr (.inr ⟨hms, rfl⟩)⟩)), rfl⟩

/-! ## Relationships -/

lemma registers_of_reaches (hno : owner ∈ cat.nodes) (hf : fd ∈ cat.membersOf owner)
    (hre : cat.Reaches owner fd rel) (h : defn ∈ rel.queryDefs cat owner (fd.describe cat.types)) :
    cat.Registers defn :=
  .field hno hf (mem_fieldTypes.mpr (.inl ⟨rel, hre, h⟩))

section

variable (hno : owner ∈ cat.nodes) (hf : fd ∈ cat.membersOf owner) (hre : cat.Reaches owner fd rel)
  (hq : rel.isQueried cat) (hsh : cat.shared? owner fd.name = none)
include hno hf hre hq hsh

lemma registers_of_mem_inputs (h : defn = (rel.inputs cat.settings owner.name).filterType ∨
    defn = (rel.inputs cat.settings owner.name).orderingType ∨
      (rel.isReflexive ∧ defn = rel.directionsFilter)) : cat.Registers defn := by
  have hna : cat.naming owner fd.name = owner.name := by simp [naming, hsh]
  refine registers_of_reaches hno hf hre (Relationship.mem_queryDefs.mpr ?_)
  simp only [FieldDef.describe_name, hna]
  exact ⟨hq, .inr (.inr ⟨hsh, h⟩)⟩

lemma registers_inputs_of_reaches {name : Name}
    (h : name = rel.filterName owner.name ∨ name = rel.orderingName ∨
    (rel.isReflexive ∧ name = rel.directionsFilterName)) :
    ∃ defn, cat.Registers defn ∧ defn.name = name := by
  obtain ⟨hfn, hon⟩ := relationship_inputs_names cat.settings rel owner.name
  rcases h with rfl | rfl | ⟨hrefl, rfl⟩
  · exact ⟨_, registers_of_mem_inputs hno hf hre hq hsh (.inl rfl), hfn⟩
  · exact ⟨_, registers_of_mem_inputs hno hf hre hq hsh (.inr (.inl rfl)), hon⟩
  · exact ⟨_, registers_of_mem_inputs hno hf hre hq hsh (.inr (.inr ⟨hrefl, rfl⟩)), rfl⟩

end

end Catalog

end GraphApi
