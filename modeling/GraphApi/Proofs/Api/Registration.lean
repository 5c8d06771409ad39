import GraphApi.Proofs.Api.Assembly

/-!
# What is registered and offered

`Catalog.Registers` and `Catalog.Offers` name every generated type and every generated field of an
operation type, and the steps of an augmentation report no others (`Catalog.registers_iff`,
`Catalog.offers_of_mem_effects`). What is registered is defined (`Catalog.defined_of_registers`).
-/

namespace GraphApi.Catalog

open List Progress Event Relationship Text NameMap

variable {cat : Catalog} {owner defn : TypeDef} {type name : Name}
  {kind : OperationKind} {own : Bool}
  {fd : FieldDef} {infos : List FieldInfo} {doc : Document} {extn : TypeExt}
  {relationships : List FieldDef} {inputs : TypeInputs} {cfg : Settings} {key : Option PrimaryKey}
  {defns : List TypeDef} {start : NameMap TypeDef} {e : Name × TypeDef}

def nodes (cat : Catalog) : List TypeDef :=
  cat.types.values.filter TypeDef.isNode

/-- The mutations of a node type: those of the flat mode, or those of the experimental one. -/
def nodeMutations (cat : Catalog) (owner : Name) : List FieldDef :=
  let infos := cat.fieldInfos owner
  if cat.settings.experimental then
    (inputMutations cat.settings owner infos (primaryKey infos)).fields
  else flatMutations cat.settings owner infos (primaryKey infos)

/-- The generated types, by where they come from. -/
inductive Registers (cat : Catalog) : TypeDef → Prop
  | field {owner : TypeDef} {field : FieldDef} {defn : TypeDef} (hnode : owner ∈ cat.nodes)
      (hfield : field ∈ cat.membersOf owner) (h : defn ∈ fieldTypes cat owner field) :
      Registers cat defn
  | selection {owner : TypeDef} {key : PrimaryKey} (hnode : owner ∈ cat.nodes)
      (hobject : owner.isObject) (haug : cat.augments .mutation owner.name)
      (hkey : primaryKey (cat.fieldInfos owner.name) = some key) :
      Registers cat (selectionInput owner.name key)
  | input {owner : TypeDef} {defn : TypeDef} (hnode : owner ∈ cat.nodes) (hobject : owner.isObject)
      (haug : cat.augments .mutation owner.name) (hexp : cat.settings.experimental)
      (h : defn ∈ (inputMutations cat.settings owner.name (cat.fieldInfos owner.name)
        (primaryKey (cat.fieldInfos owner.name))).types) : Registers cat defn
  | filter {owner : TypeDef} (hnode : owner ∈ cat.nodes) (haug : cat.augments .query owner.name) :
      Registers cat (nodeInputs cat owner).filterType
  | ordering {owner : TypeDef} (hnode : owner ∈ cat.nodes) (haug : cat.augments .query owner.name)
      (hordering : (nodeInputs cat owner).ordering ≠ []) :
      Registers cat (nodeInputs cat owner).orderingType

/-- The generated fields of operation types, by where they come from. -/
inductive Offers (cat : Catalog) : OperationKind → FieldDef → Prop
  | query {owner : TypeDef} (hnode : owner ∈ cat.nodes) (haug : cat.augments .query owner.name) :
      Offers cat .query (nodeQueryField cat owner.name (cat.fieldInfos owner.name))
  | mutation {owner : TypeDef} {field : FieldDef} (hnode : owner ∈ cat.nodes)
      (hobject : owner.isObject) (haug : cat.augments .mutation owner.name)
      (h : field ∈ cat.nodeMutations owner.name) : Offers cat .mutation field
  | relationship {owner : TypeDef} {member field : FieldDef} (hnode : owner ∈ cat.nodes)
      (hobject : owner.isObject) (hignored : owner.isIgnored = false)
      (hmember : member ∈ cat.membersOf owner)
      (h : field ∈ (fieldGain cat owner member).mutations) : Offers cat .mutation field

/-! ## Node types -/

lemma mem_nodes : owner ∈ cat.nodes ↔ owner ∈ cat.types.values ∧ owner.isNode := mem_filter

lemma mem_extensionsOf (hs : cat.IsSorted) :
    extn ∈ cat.extensionsOf type ↔ extn ∈ cat.extensions.flatMap (·.2) ∧ extn.name = type := by
  constructor
  · intro h
    unfold extensionsOf at h
    cases hg : cat.extensions.get? type with
    | none => simp [hg] at h
    | some own =>
      have he := mem_of_get? hg
      have hown : extn ∈ own := by simpa [hg] using h
      exact ⟨mem_flatMap.mpr ⟨_, he, hown⟩, hs.nameOfExtension _ he extn hown⟩
  · rintro ⟨h, rfl⟩
    obtain ⟨e, he, hx⟩ := mem_flatMap.mp h
    rwa [hs.nameOfExtension e he extn hx, extensionsOf, get?_eq_some_of_mem hs.nodupExtensions he]

lemma get?_of_mem_values (hs : cat.IsSorted) (h : defn ∈ cat.types.values) :
    cat.types.get? defn.name = some defn := by
  obtain ⟨⟨name, other⟩, he, rfl⟩ := mem_map.mp h
  have hn : other.name = name := hs.nameOfType _ he
  rw [hn]
  exact get?_eq_some_of_mem hs.nodupTypes he

lemma get?_of_mem_nodes (hs : cat.IsSorted) (h : owner ∈ cat.nodes) :
    cat.types.get? owner.name = some owner :=
  get?_of_mem_values hs (mem_nodes.mp h).1

lemma mem_nodes_of_get? (h : cat.types.get? name = some owner) (hno : owner.isNode) :
    owner ∈ cat.nodes :=
  mem_nodes.mpr ⟨mem_map_of_mem (mem_of_get? h), hno⟩

lemma node_of_augments (hs : cat.IsSorted) (h : cat.augments kind type) :
    ∃ owner ∈ cat.nodes, owner.name = type ∧ owner.isIgnored = false ∧
      cat.types.get? type = some owner := by
  unfold augments at h
  cases hg : cat.types.get? type with
  | none => simp [hg] at h
  | some owner =>
    simp only [hg, Bool.and_eq_true, Bool.not_eq_true'] at h
    exact ⟨owner, mem_nodes_of_get? hg h.2.1.1, hs.nameOfType _ (mem_of_get? hg), h.2.1.2, rfl⟩

lemma not_ignored_of_augments (hs : cat.IsSorted) (hno : owner ∈ cat.nodes)
    (h : cat.augments kind owner.name) : owner.isIgnored = false := by
  obtain ⟨other, _, _, hig, hg⟩ := node_of_augments hs h
  rw [get?_of_mem_nodes hs hno] at hg
  rwa [Option.some.inj hg]

/-! ## Steps -/

lemma mem_effects {event : Event} :
    event ∈ cat.effects ↔ ∃ owner ∈ cat.nodes, event ∈ nodeEffects cat owner := by
  simp only [effects, mem_flatMap, mem_nodes, typeEffects]
  constructor
  · rintro ⟨owner, ho, h⟩
    split at h
    next hno => exact ⟨owner, ⟨ho, hno⟩, h⟩
    · simp at h
  · rintro ⟨owner, ⟨ho, hno⟩, h⟩
    exact ⟨owner, ho, by rwa [if_pos hno]⟩

lemma register_mem_mutationEffects : let infos := cat.fieldInfos type
    register defn own ∈ mutationEffects cat type infos relationships ↔ cat.augments .mutation type ∧
        ((∃ key, primaryKey infos = some key ∧ defn = selectionInput type key ∧ own) ∨
          (cat.settings.experimental ∧
            defn ∈ (inputMutations cat.settings type infos (primaryKey infos)).types ∧
            own = false)) := by
  intro infos
  unfold mutationEffects nodeMutationEffects
  cases cat.augments .mutation type with
  | false => simp
  | true =>
    cases cat.settings.experimental <;> simp [eq_comm]

lemma mem_map_offer {fields : List FieldDef} {other : OperationKind} :
    offer kind fd ∈ fields.map (.offer other) ↔ kind = other ∧ fd ∈ fields := by
  rw [mem_map]
  constructor
  · rintro ⟨_, h, heq⟩
    obtain ⟨rfl, rfl⟩ := offer.inj heq
    exact ⟨rfl, h⟩
  · rintro ⟨rfl, h⟩
    exact ⟨fd, h, rfl⟩

lemma offer_mem_mutationEffects : offer kind fd ∈ mutationEffects cat type (cat.fieldInfos type)
    relationships ↔
    kind = .mutation ∧ ((cat.augments .mutation type ∧ fd ∈ cat.nodeMutations type) ∨
      fd ∈ relationships) := by
  unfold mutationEffects nodeMutationEffects nodeMutations
  cases cat.augments .mutation type with
  | false => simp [mem_map_offer]
  | true => cases cat.settings.experimental <;> simp [mem_map_offer, and_or_left]

lemma register_mem_queryEffects : register defn own ∈ queryEffects cat type infos inputs ↔
    cat.augments .query type ∧ own ∧
      (defn = inputs.filterType ∨ (inputs.ordering ≠ [] ∧ defn = inputs.orderingType)) := by
  unfold queryEffects
  cases cat.augments .query type with
  | false => simp
  | true => cases inputs.ordering <;> simp <;> tauto

lemma registerOwn_mem_nodeEffects :
    register defn true ∈ nodeEffects cat owner ↔ owner.isIgnored = false ∧
    ((owner.isObject ∧ cat.augments .mutation owner.name ∧
        ∃ key, primaryKey (cat.fieldInfos owner.name) = some key ∧
          defn = selectionInput owner.name key) ∨
      (cat.augments .query owner.name ∧ (defn = (nodeInputs cat owner).filterType ∨
        ((nodeInputs cat owner).ordering ≠ [] ∧ defn = (nodeInputs cat owner).orderingType)))) := by
  unfold nodeEffects operationEffects
  cases owner.isIgnored <;> cases owner.isObject <;>
    simp [register_mem_mutationEffects, register_mem_queryEffects]

lemma offer_mem_queryEffects : offer kind fd ∈ queryEffects cat type infos inputs ↔
    cat.augments .query type ∧ kind = .query ∧ fd = nodeQueryField cat type infos := by
  unfold queryEffects
  cases cat.augments .query type with
  | false => simp
  | true => cases inputs.ordering <;> simp

/-- The steps register the types that `Registers` names, and no others. -/
theorem registers_iff (hs : cat.IsSorted) :
    (∃ own, register defn own ∈ cat.effects) ↔ cat.Registers defn := by
  constructor
  · rintro ⟨own, h⟩
    obtain ⟨owner, hno, h⟩ := mem_effects.mp h
    rcases mem_append.mp h with h | h
    · obtain ⟨other, ho, heq⟩ := mem_map.mp h
      obtain ⟨fd, hf, ho⟩ := mem_flatMap.mp ho
      obtain ⟨rfl, -⟩ := register.inj heq
      exact .field hno hf ho
    · split at h
      · simp at h
      · rcases mem_append.mp h with h | h
        · split at h
          next hobj =>
            obtain ⟨haug, h⟩ := register_mem_mutationEffects.mp h
            rcases h with ⟨key, hk, rfl, -⟩ | ⟨hexp, h, -⟩
            · exact .selection hno hobj haug hk
            · exact .input hno hobj haug hexp h
          · simp at h
        · obtain ⟨haug, -, rfl | ⟨hord, rfl⟩⟩ := register_mem_queryEffects.mp h
          · exact .filter hno haug
          · exact .ordering hno haug hord
  · intro h
    -- a type that is augmented is not ignored, so its operations are passed over
    have hops (own : Bool) {owner defn : TypeDef} {kind : OperationKind} (hno : owner ∈ cat.nodes)
        (haug : cat.augments kind owner.name)
        (h : register defn own ∈ operationEffects cat owner) :
        ∃ own, register defn own ∈ cat.effects := by
      refine ⟨own, mem_effects.mpr ⟨owner, hno, mem_append_right _ ?_⟩⟩
      rwa [not_ignored_of_augments hs hno haug]
    cases h with
    | field hno hf h =>
      refine ⟨false, mem_effects.mpr ⟨_, hno, mem_append_left _ ?_⟩⟩
      exact mem_map.mpr ⟨_, mem_flatMap.mpr ⟨_, hf, h⟩, rfl⟩
    | selection hno hobj haug hk =>
      refine hops true hno haug (mem_append_left _ ?_)
      rw [if_pos hobj]
      exact register_mem_mutationEffects.mpr ⟨haug, .inl ⟨_, hk, rfl, rfl⟩⟩
    | input hno hobj haug hexp h =>
      refine hops false hno haug (mem_append_left _ ?_)
      rw [if_pos hobj]
      exact register_mem_mutationEffects.mpr ⟨haug, .inr ⟨hexp, h, rfl⟩⟩
    | filter hno haug =>
      exact hops true hno haug (mem_append_right _
        (register_mem_queryEffects.mpr ⟨haug, rfl, .inl rfl⟩))
    | ordering hno haug hord =>
      exact hops true hno haug (mem_append_right _
        (register_mem_queryEffects.mpr ⟨haug, rfl, .inr ⟨hord, rfl⟩⟩))

/-- The steps offer only fields that `Offers` names. -/
theorem offers_of_mem_effects (h : offer kind fd ∈ cat.effects) : cat.Offers kind fd := by
  obtain ⟨owner, hno, h⟩ := mem_effects.mp h
  rcases mem_append.mp h with h | h
  · simp at h
  · split at h
    · simp at h
    next hig =>
      rcases mem_append.mp h with h | h
      · split at h
        next hobj =>
          obtain ⟨rfl, ⟨haug, h⟩ | h⟩ := offer_mem_mutationEffects.mp h
          · exact .mutation hno hobj haug h
          · obtain ⟨gain, hga, h⟩ := mem_flatMap.mp h
            obtain ⟨m, hm, rfl⟩ := mem_map.mp hga
            exact .relationship hno hobj (by simpa using hig) hm h
        · simp at h
      · obtain ⟨haug, rfl, rfl⟩ := offer_mem_queryEffects.mp h
        exact .query hno haug

/-- The arguments of a mutation of a node type. Without a key there is only the one that creates. -/
def actionArguments (cat : Catalog) (type : Name) (action : NodeAction) : List ArgumentDef :=
  let infos := cat.fieldInfos type
  let condition := requiredArgument "where" (whereName type)
  if cat.settings.experimental then
    match action with
    | .create => [requiredArgument "data" (createName type)]
    | .update => [condition, requiredArgument "data" (updateName type)]
    | .delete => [condition]
    | .merge => [requiredArgument "where" (keysName type),
        requiredArgument "data" (createName type)]
  else
    match action, primaryKey infos with
    | .create, key => createArguments infos key
    | .update, some key | .merge, some key => updateArguments infos key
    | .delete, some key => deleteArguments key
    | _, none => []

lemma exists_of_mem_nodeMutations (h : fd ∈ cat.nodeMutations type) :
    ∃ action, fd = nodeMutation cat.settings action type (cat.actionArguments type action) := by
  unfold nodeMutations at h
  unfold actionArguments
  dsimp only at h ⊢
  split at h
  next hexp =>
    simp only [hexp, if_true]
    have hma {condition : Prop} [Decidable condition] {made : FieldDef}
        (h : fd ∈ if condition then [] else [made]) : fd = made := by
      split at h
      · simp at h
      · exact mem_singleton.mp h
    unfold inputMutations at h
    dsimp only at h
    split at h
    · exact ⟨.create, hma h⟩
    · simp only [mem_append, mem_singleton] at h
      rcases h with ((h | h) | h) | h
      · exact ⟨.create, hma h⟩
      · exact ⟨.update, hma h⟩
      · exact ⟨.delete, h⟩
      · exact ⟨.merge, hma h⟩
  next hfl =>
    simp only [hfl, Bool.false_eq_true, if_false]
    unfold flatMutations at h
    cases hk : primaryKey (cat.fieldInfos type) with
    | none =>
      rw [hk] at h
      exact ⟨.create, mem_singleton.mp h⟩
    | some key =>
      simp only [hk, mem_append, mem_cons, not_mem_nil, or_false] at h
      rcases h with (h | h) | h | h
      · exact ⟨.create, h⟩
      · split at h
        · exact ⟨.update, mem_singleton.mp h⟩
        · simp at h
      · exact ⟨.delete, h⟩
      · exact ⟨.merge, h⟩

/-- What an offered field is: the list field of a node type, a mutation of one, or a mutation of a
relationship. -/
lemma Offers.shape (h : cat.Offers kind fd) :
      (kind = .query ∧ ∃ owner ∈ cat.nodes, cat.augments .query owner.name ∧
      fd = nodeQueryField cat owner.name (cat.fieldInfos owner.name)) ∨
    (kind = .mutation ∧ ∃ owner ∈ cat.nodes, cat.augments .mutation owner.name ∧
      ∃ action, fd = nodeMutation cat.settings action owner.name
        (cat.actionArguments owner.name action)) ∨
    (kind = .mutation ∧ ∃ owner ∈ cat.nodes, ∃ m ∈ cat.membersOf owner, ∃ rel,
      cat.Relates owner m rel ∧ rel.isMutable cat ∧
      ∃ action ∈ rel.actions, fd = rel.mutation cat.settings action) := by
  cases h with
  | query hno haug => exact .inl ⟨rfl, _, hno, haug, rfl⟩
  | mutation hno hobj haug h =>
    exact .inr (.inl ⟨rfl, _, hno, haug, exists_of_mem_nodeMutations h⟩)
  | relationship hno hobj hig hm h =>
    obtain ⟨rel, hrel, h⟩ := mem_fieldGain_mutations hobj h
    obtain ⟨hmut, hac⟩ := mem_mutations.mp h
    exact .inr (.inr ⟨rfl, _, hno, _, hm, rel, hrel, hmut, hac⟩)

/-! ## Names -/

lemma nodeInputs_names (cat : Catalog) (defn : TypeDef) :
    (nodeInputs cat defn).filterName = filterName defn.name ∧
    (nodeInputs cat defn).orderingName = orderingName defn.name := by
  simp [nodeInputs_eq]

lemma relationship_inputs_names (cfg : Settings) (rel : Relationship) (naming : Name) :
    (rel.inputs cfg naming).filterName = rel.filterName naming ∧
      (rel.inputs cfg naming).orderingName = rel.orderingName := by
  simp [inputs_eq]

lemma startsWith_underscore (middle rest : Name) : startsWith "_" ("_" ++ middle ++ rest) := by
  simp [startsWith]

lemma startsWith_of_mem_fieldTypes (h : defn ∈ fieldTypes cat owner fd) : startsWith "_" defn.name := by
  rcases mem_fieldTypes.mp h with ⟨rel, -, h⟩ | ⟨rel, -, h⟩
  · obtain ⟨hfi, hord⟩ := relationship_inputs_names cat.settings rel (cat.naming owner (fd.describe cat.types).name)
    obtain ⟨-, rfl | ⟨-, rfl⟩ | ⟨-, rfl | rfl | ⟨-, rfl⟩⟩⟩ := mem_queryDefs.mp h
    · exact startsWith_underscore _ _
    · change startsWith "_" (_ ++ _ ++ _ ++ _)
      simp [startsWith]
    · change startsWith "_" (TypeInputs.filterName _)
      rw [hfi, Relationship.filterName]
      split <;> exact startsWith_underscore _ _
    · change startsWith "_" (TypeInputs.orderingName _)
      rw [hord]
      exact startsWith_underscore _ _
    · exact startsWith_underscore _ _
  · obtain ⟨-, ⟨-, rfl⟩ | ⟨action, -, rfl⟩⟩ := mem_mutationDefs.mp h
    · exact startsWith_underscore _ _
    · exact startsWith_underscore _ _

lemma uniqueKeyFields_isEmpty (infos : List FieldInfo) (key : PrimaryKey) :
    (uniqueKeyFields infos (some key)).isEmpty = false := by
  unfold uniqueKeyFields
  dsimp only
  split
  · rfl
  next h => simpa using h

def updateMembers (infos keys : List FieldInfo) : List ArgumentDef :=
  (infos.filter fun info => info.isStored && !(keys.map FieldInfo.name).contains info.name).map
    optionalArgument

lemma mem_types_inputMutations :
    let create := createArguments infos key
    let keys := uniqueKeyFields infos key
    defn ∈ (inputMutations cfg type infos key).types ↔
        (create ≠ [] ∧ defn = inputType (createName type) create) ∨
        (key.isSome ∧ (defn = whereInput cfg type keys ∨ defn = keysInput type keys ∨
          (updateMembers infos keys ≠ [] ∧
           defn = inputType (updateName type) (updateMembers infos keys)))) := by
  intro create keys
  cases key with
  | none => simp [inputMutations, create]
  | some key => simp [inputMutations, uniqueKeyFields_isEmpty, updateMembers, create, keys]

lemma name_of_mem_inputMutations (h : defn ∈ (inputMutations cfg type infos key).types) :
    defn.name ∈ [createName type, whereName type, keysName type, updateName type] := by
  rcases mem_types_inputMutations.mp h with ⟨-, rfl⟩ | ⟨-, rfl | rfl | ⟨-, rfl⟩⟩ <;>
    simp [whereInput, filterType, keysInput, inputType]

lemma startsWith_of_registers (h : cat.Registers defn) : startsWith "_" defn.name := by
  cases h with
  | field hno hf h => exact startsWith_of_mem_fieldTypes h
  | selection => exact startsWith_underscore _ _
  | input hno hobj haug hexp h =>
    have hn := name_of_mem_inputMutations h
    simp only [mem_cons, not_mem_nil, or_false] at hn
    rcases hn with hn | hn | hn | hn <;> rw [hn] <;> exact startsWith_underscore _ _
  | @filter owner =>
    change startsWith "_" (TypeInputs.filterName _)
    rw [(nodeInputs_names cat owner).1]
    exact startsWith_underscore _ _
  | @ordering owner =>
    change startsWith "_" (TypeInputs.orderingName _)
    rw [(nodeInputs_names cat owner).2]
    exact startsWith_underscore _ _

/-! ## Generated types -/

/-- Whether a generated type does not depend on any type: a temporal or spatial type, or the enum of
directions. -/
def IsFixed (cat : Catalog) (defn : TypeDef) : Prop :=
  defn ∈ storedTypes cat.settings ∨ defn = directionsEnumDef

/-- The types that do not depend on any type: the output and the input type of a kind, whose members
are scalars, the comparison of distances, which comes with points, and the enum of directions. -/
lemma isFixed_cases (h : cat.IsFixed defn) :
    (∃ kind ms, (∀ m ∈ ms, m.type.base ∈ Builtin.scalarNames) ∧
    (defn = { name := storedTypeName kind, body := .object [] (ms.map ArgumentDef.toField) } ∨
        defn = inputType (storedInputName kind) ms)) ∨
    (SpatialKind.point ∈ SpatialKind.all.filter cat.settings.enablesSpatial ∧
      defn = pointDistanceType) ∨
    defn = directionsEnumDef := by
  rcases h with h | rfl
  · rcases mem_append.mp h with h | h
    · obtain ⟨kind, -, h⟩ := mem_flatMap.mp h
      exact .inl ⟨kind.word, kind.members, by cases kind <;> decide, mem_pair.mp h⟩
    · obtain ⟨kind, hk, h⟩ := mem_flatMap.mp h
      cases kind
      rcases mem_append.mp h with h | h
      · exact .inl ⟨_, _, by decide, mem_pair.mp h⟩
      · exact .inr (.inl ⟨hk, mem_singleton.mp h⟩)
  · exact .inr (.inr rfl)

lemma startsWith_of_isFixed (h : cat.IsFixed defn) : startsWith "_" defn.name := by
  obtain ⟨kind, ms, -, rfl | rfl⟩ | ⟨-, rfl⟩ | rfl := isFixed_cases h
  · simp [startsWith, storedTypeName, storedStart]
  · simp [startsWith, inputType, storedInputName, storedStart]
  · decide
  · decide

/-- What is registered by some steps, and then the types that do not depend on the document. -/
def registrationsFrom (cat : Catalog) (events : List Event) : List (TypeDef × Bool) :=
  events.filterMap registration? ++ (storedTypes cat.settings).map (·, true) ++
    if cat.types.contains directionsEnum then [] else [(directionsEnumDef, false)]

lemma generated_eq_registerAll (cat : Catalog) :
    cat.generated = registerAll (cat.registrationsFrom cat.effects) := by
  unfold generated completeGenerated progress registrationsFrom registerAll
  rw [generated_run, foldl_append, foldl_append, foldl_map]
  split <;> rfl

lemma mem_registrationsFrom {events : List Event} {e : TypeDef × Bool}
    (h : e ∈ cat.registrationsFrom events) : register e.1 e.2 ∈ events ∨ cat.IsFixed e.1 := by
  rcases mem_append.mp h with h | h
  · rcases mem_append.mp h with h | h
    · exact .inl (mem_registrations.mp h)
    · obtain ⟨defn, hd, rfl⟩ := mem_map.mp h
      exact .inr (.inl hd)
  · split at h
    · cases h
    · rw [mem_singleton.mp h]
      exact .inr (.inr rfl)

lemma mem_generated (hs : cat.IsSorted) (h : e ∈ cat.generated) :
    e.1 = e.2.name ∧ (cat.Registers e.2 ∨ cat.IsFixed e.2) := by
  rw [generated_eq_registerAll] at h
  obtain ⟨hn, own, hm⟩ := mem_registerAll h
  exact ⟨hn, (mem_registrationsFrom hm).imp_left fun hreg => (registers_iff hs).mp ⟨own, hreg⟩⟩

lemma mem_keys_generated_iff : name ∈ cat.generated.keys ↔
    ∃ e ∈ cat.registrationsFrom cat.effects, e.1.name = name := by
  rw [generated_eq_registerAll, mem_keys_registerAll]

lemma mem_keys_generated_of_stored (h : ∃ defn ∈ storedTypes cat.settings, defn.name = name) :
    name ∈ cat.generated.keys := by
  obtain ⟨defn, hd, hn⟩ := h
  exact mem_keys_generated_iff.mpr ⟨_,
    mem_append_left _ (mem_append_right _ (mem_map_of_mem hd)), hn⟩

lemma mem_keys_generated_of_registers (hs : cat.IsSorted) (h : cat.Registers defn) :
    defn.name ∈ cat.generated.keys := by
  obtain ⟨own, h⟩ := (registers_iff hs).mpr h
  exact mem_keys_generated_iff.mpr
    ⟨(defn, own), mem_append_left _ (mem_append_left _ (mem_registrations.mpr h)), rfl⟩

lemma mem_keptTypes : defn ∈ keptTypes cat.types cat.generated ↔
    defn ∈ cat.generated.values ∧ defn.name ∉ cat.types.keys := by
  rw [keptTypes, mem_filter, sortByName, mem_mergeSort, Bool.not_eq_true',
    ← Bool.not_eq_true, contains_iff]

/-! ## Defined types -/

variable (hs : cat.IsSorted) (h : cat.augment.outcome = .ok doc)
include hs h

/-- The types that an augmented document defines: the declared ones, the operation types, the
generated ones and scalars for temporal and spatial kinds that stay. -/
lemma typeDefs_augment : ∃ dirs, doc.typeDefs =
    (cat.types.values.map (augmentedType cat) ++ (keptRoots cat.progress.roots).map (·.2.build) ++
      keptTypes cat.types cat.generated).map (·.retarget cat.settings) ++
      (cat.parts dirs).scalars cat.settings := by
  obtain ⟨dirs, -, rfl⟩ := augment_eq hs h
  exact ⟨_, Parts.typeDefs_document _ hs.others⟩

lemma mem_typeDefs_augment (hv : defn ∈ cat.types.values) :
    (augmentedType cat defn).retarget cat.settings ∈ doc.typeDefs := by
  obtain ⟨dirs, hts⟩ := typeDefs_augment hs h
  rw [hts]
  refine mem_append_left _ (mem_map_of_mem (mem_append_left _ (mem_append_left _ ?_)))
  exact mem_map_of_mem hv

lemma mem_typeDefs_of_mem_keptRoots {root : OperationKind × RootType}
    (hr : root ∈ keptRoots cat.progress.roots) :
    root.2.build.retarget cat.settings ∈ doc.typeDefs := by
  obtain ⟨dirs, hts⟩ := typeDefs_augment hs h
  rw [hts]
  refine mem_append_left _ (mem_map_of_mem (mem_append_left _ (mem_append_right _ ?_)))
  exact mem_map_of_mem hr

lemma mem_typeExts_augment (hx : extn ∈ cat.extensions.flatMap (·.2)) :
    (cat.augmentedExt extn).retarget cat.settings ∈ doc.typeExts := by
  obtain ⟨dirs, -, rfl⟩ := augment_eq hs h
  rw [Parts.typeExts_document _ hs.others]
  obtain ⟨e, he, hown⟩ := mem_flatMap.mp hx
  exact mem_map_of_mem (mem_flatMap.mpr ⟨e, he, mem_map_of_mem hown⟩)

lemma defined_of_declared (hn : name ∈ cat.types.keys) : name ∈ doc.typeDefs.map (·.name) := by
  obtain ⟨⟨_, defn⟩, he, rfl⟩ := mem_map.mp hn
  refine mem_map.mpr ⟨_, mem_typeDefs_augment hs h (mem_map_of_mem he), ?_⟩
  exact (augmentedType_name cat defn).trans (hs.nameOfType _ he)

lemma defined_of_generated (hn : name ∈ cat.generated.keys) : name ∈ doc.typeDefs.map (·.name) := by
  by_cases hd : name ∈ cat.types.keys
  · exact defined_of_declared hs h hd
  obtain ⟨dirs, hts⟩ := typeDefs_augment hs h
  obtain ⟨e, he, rfl⟩ := mem_map.mp hn
  have hk := (mem_generated hs he).1
  refine mem_map.mpr ⟨e.2.retarget cat.settings, ?_, hk.symm⟩
  rw [hts]
  refine mem_append_left _ (mem_map_of_mem (mem_append_right _ ?_))
  exact mem_keptTypes.mpr ⟨mem_map_of_mem he, hk ▸ hd⟩

/-- Every registered type is defined, under its name, in the augmented document. -/
theorem defined_of_registers (hreg : cat.Registers defn) : defn.name ∈ doc.typeDefs.map (·.name) :=
  defined_of_generated hs h (mem_keys_generated_of_registers hs hreg)

end GraphApi.Catalog
