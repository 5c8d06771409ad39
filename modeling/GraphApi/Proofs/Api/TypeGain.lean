import GraphApi.Proofs.Api.FieldGain

/-!
# What a type becomes

The outcome of the passes over whole types, without the steps: the augmented node types and
operation types, and the steps that are reported for them in order. Main statements:
`augmentNodeType_traces`, `augmentRoots_traces` and `augmentTypes_traces`.
-/

namespace GraphApi

open List Run Pass Yields Traces TypeInputs Bool TypeExt

variable {cat : Catalog} {defn : TypeDef}

/-! ## Node types -/

def Catalog.membersOf (cat : Catalog) (defn : TypeDef) : List FieldDef :=
  defn.fields ++ (cat.extensionsOf defn.name).flatMap TypeExt.fields

def nodeMutationEffects (cat : Catalog) (type : Name) (infos : List FieldInfo)
    (key : Option PrimaryKey) : List Event :=
  if cat.settings.experimental then
    (inputMutations cat.settings type infos key).types.map (.register · false) ++
      (inputMutations cat.settings type infos key).fields.map (.offer .mutation)
  else (flatMutations cat.settings type infos key).map (.offer .mutation)

/-- The steps for the mutations of a node type: its selection and its own mutations if it has the
mutation API, then those of the relationships it declares. -/
def mutationEffects (cat : Catalog) (type : Name) (infos : List FieldInfo)
    (relationships : List FieldDef) : List Event :=
  (if cat.augments .mutation type then
    (primaryKey infos).toList.map (fun key => .register (selectionInput type key) true) ++
      nodeMutationEffects cat type infos (primaryKey infos)
  else []) ++ relationships.map (.offer .mutation)

def queryEffects (cat : Catalog) (type : Name) (infos : List FieldInfo) (inputs : TypeInputs) :
    List Event :=
  if cat.augments .query type then
    [.offer .query (nodeQueryField cat type infos), .register inputs.filterType true] ++
      if inputs.ordering.isEmpty then [] else [.register inputs.orderingType true]
  else []

def nodeGains (cat : Catalog) (defn : TypeDef) : List FieldGain :=
  (cat.membersOf defn).map (fieldGain cat defn)

def nodeInputs (cat : Catalog) (defn : TypeDef) : TypeInputs :=
  let inputs := gatherInputs defn.name (nodeGains cat defn)
  if defn.isObject then inputs.addSystemId else inputs

/-- The steps for the operations of a node type; an interface has queries only. -/
def operationEffects (cat : Catalog) (defn : TypeDef) : List Event :=
  let infos := cat.fieldInfos defn.name
  (if defn.isObject then
    mutationEffects cat defn.name infos ((nodeGains cat defn).flatMap (·.mutations))
  else []) ++ queryEffects cat defn.name infos (nodeInputs cat defn)

/-- The field that is added to a node type: the assigned identifier of an object type that does not
declare it. -/
def addedFields (cat : Catalog) (defn : TypeDef) : List FieldDef :=
  if defn.isObject && !defn.isIgnored then
    if (cat.fieldInfos defn.name).any FieldInfo.isSystemId then [] else [systemIdField]
  else []

/-- Only an object type gets the assigned identifier. -/
lemma addedFields_cases (cat : Catalog) (defn : TypeDef) : addedFields cat defn = [] ∨
    defn.isObject ∧ defn.isIgnored = false ∧ addedFields cat defn = [systemIdField] := by
  unfold addedFields
  split
  next h =>
    rw [and_eq_true, not_eq_true'] at h
    split
    · exact .inl rfl
    · exact .inr ⟨h.1, h.2, rfl⟩
  · exact .inl rfl

lemma mem_addedFields {fd : FieldDef} (h : fd ∈ addedFields cat defn) : fd = systemIdField := by
  rcases addedFields_cases cat defn with heq | ⟨-, -, heq⟩
  · simp [heq] at h
  · simpa [heq] using h

def augmentedNode (cat : Catalog) (defn : TypeDef) : TypeDef :=
  defn.withFields
    (defn.fields.map (fun field => (fieldGain cat defn field).field) ++ addedFields cat defn)

def augmentedExtension (cat : Catalog) (defn : TypeDef) (extn : TypeExt) : TypeExt :=
  extn.withFields (extn.fields.map fun field => (fieldGain cat defn field).field)

/-- The steps for a node type: the types that its fields register, then its operations unless all
fields are ignored. -/
def nodeEffects (cat : Catalog) (defn : TypeDef) : List Event :=
  ((cat.membersOf defn).flatMap (fieldTypes cat defn)).map (.register · false) ++
    if defn.isIgnored then [] else operationEffects cat defn

lemma augmentBody_traces (cat : Catalog) (defn : TypeDef) (body : TypeBody) :
    (augmentBody cat defn body).Traces (body.fields.map (fieldGain cat defn))
      (body.fields.flatMap fun fd => (fieldTypes cat defn fd).map (.register · false)) := by
  unfold augmentBody TypeBody.fields
  cases body.fields? with
  | none => exact .fail _
  | some fields => exact .each fun fd _ => augmentField_traces ..

section

variable (cat) (type : Name) (infos : List FieldInfo)

lemma augmentNodeMutation_yields (key : Option PrimaryKey) :
    (augmentNodeMutation cat type infos key).Yields ()
      (nodeMutationEffects cat type infos key) := by
  have hoff : (if cat.settings.experimental then do
      let mutations := inputMutations cat.settings type infos key
      emitAll (mutations.types.map (.register · false))
      offer .mutation mutations.fields
    else offer .mutation (flatMutations cat.settings type infos key) : Pass Unit).Yields ()
      (nodeMutationEffects cat type infos key) := by
    unfold nodeMutationEffects
    split
    · exact (registerAll _).bind (.offer _ _)
    · exact .offer _ _
  unfold augmentNodeMutation
  cases lacksKey cat.settings infos key with
  | false => exact hoff
  | true => exact (Yields.note _ _).bind hoff

lemma augmentNodeMutations_yields (relationships : List FieldDef) :
    (augmentNodeMutations cat type infos relationships).Yields ()
    (mutationEffects cat type infos relationships) := by
  refine (augments_yields cat .mutation type).bind ?_
  cases cat.augments .mutation type with
  | false => exact .offer _ _
  | true =>
    have hown (key : Option PrimaryKey) : (do
        augmentNodeMutation cat type infos key
        offer .mutation relationships : Pass Unit).Yields ()
          (nodeMutationEffects cat type infos key ++ relationships.map (.offer .mutation)) :=
      (augmentNodeMutation_yields cat type infos key).bind (.offer _ _)
    cases primaryKey infos with
    | none => exact hown none
    | some key => exact (Yields.note _ _).bind ((Yields.registerOwn _).bind (hown (some key)))

lemma augmentNodeQuery_yields (inputs : TypeInputs) :
    (augmentNodeQuery cat type infos inputs).Yields () (queryEffects cat type infos inputs) := by
  refine (augments_yields cat .query type).bind ?_
  cases cat.augments .query type with
  | false => exact .pure _
  | true =>
    refine (Yields.offer .query _).bind ((Yields.registerOwn _).bind ?_)
    cases inputs.ordering.isEmpty with
    | true => exact .pure _
    | false => exact .registerOwn _

end

lemma augmentOperations_yields (cat : Catalog) (defn : TypeDef) (hig : defn.isIgnored = false) :
    (augmentOperations cat defn (nodeGains cat defn)).Yields (addedFields cat defn)
      (operationEffects cat defn) := by
  unfold augmentOperations addedFields operationEffects nodeInputs
  rw [hig]
  cases defn.isObject with
  | false => exact (augmentNodeQuery_yields ..).map _
  | true => exact (augmentNodeMutations_yields ..).bind ((augmentNodeQuery_yields ..).map _)

lemma gains_eq_nodeGains (cat : Catalog) (defn : TypeDef) :
    defn.body.fields.map (fieldGain cat defn) ++ ((cat.extensionsOf defn.name).map fun extn =>
      extn.body.fields.map (fieldGain cat defn)).flatten = nodeGains cat defn := by
  simp [nodeGains, Catalog.membersOf, TypeDef.fields, fields, flatMap, map_flatten,
    Function.comp_def]

/-- The pass over a node type reports the steps for it, and makes of it the augmented type. -/
theorem augmentNodeType_traces (cat : Catalog) (defn : TypeDef) : (augmentNodeType cat defn).Traces
    { definition := augmentedNode cat defn
      extensions := (cat.extensionsOf defn.name).map (augmentedExtension cat defn) }
      (nodeEffects cat defn) := by
  have hxs : (cat.extensionsOf defn.name).zipWith (fun extn gains =>
        extn.withFields (gains.map (·.field))) ((cat.extensionsOf defn.name).map fun extn =>
          extn.body.fields.map (fieldGain cat defn)) =
      (cat.extensionsOf defn.name).map (augmentedExtension cat defn) := by
    simp [zipWith_map_right, augmentedExtension, fields, Function.comp_def]
  have hreg : ((cat.membersOf defn).flatMap (fieldTypes cat defn)).map (Event.register · false) =
      (defn.body.fields.flatMap fun fd => (fieldTypes cat defn fd).map (.register · false)) ++
        (cat.extensionsOf defn.name).flatMap fun extn => extn.body.fields.flatMap fun fd =>
          (fieldTypes cat defn fd).map (.register · false) := by
    simp [Catalog.membersOf, TypeDef.fields, fields, map_flatMap, flatMap_assoc]
  unfold nodeEffects
  rw [hreg, append_assoc]
  refine (check _).bind ((augmentBody_traces ..).bind
    ((Traces.each fun extn _ => augmentBody_traces ..).bind ?_))
  rw [hxs]
  unfold augmentedNode addedFields
  cases hig : defn.isIgnored with
  | true =>
    simp only [Bool.not_true, Bool.and_false, Bool.false_eq_true, if_false, if_true,
      append_nil, map_map]
    exact (Yields.note _ _).traces.bind (.pure _)
  | false =>
    have hops := augmentOperations_yields cat defn hig
    unfold addedFields at hops
    rw [gains_eq_nodeGains]
    simp only [hig, Bool.false_eq_true, if_false, map_map] at hops ⊢
    exact (hops.map _).traces

/-! ## Operation types -/

def rootField (cat : Catalog) (owner : Name) (field : FieldDef) : FieldDef :=
  let info := field.describe cat.types
  if info.kind = .node && !info.isIgnored then { field with arguments := nodeFieldArguments cat owner info } else field

def augmentedRoot (cat : Catalog) (root : RootType) : RootType :=
  { root with fields := root.fields.map (rootField cat root.name) }

def augmentedRootExtension (cat : Catalog) (extn : TypeExt) : TypeExt :=
  extn.withFields (extn.fields.map (rootField cat extn.name))

lemma augmentRootField_traces (cat : Catalog) (owner : Name) (isInput : Bool) (fd : FieldDef) :
    (augmentRootField cat owner isInput fd).Traces (rootField cat owner fd) [] := by
  unfold augmentRootField rootField
  simp only
  split
  · exact (augmentNodeArguments_traces ..).map _
  · exact .pure _

lemma augmentRootExtension_traces (cat : Catalog) (extn : TypeExt) :
    (augmentRootExtension cat extn).Traces (augmentedRootExtension cat extn) [] := by
  unfold augmentRootExtension augmentedRootExtension fields TypeBody.fields
  cases extn.body.fields? with
  | none => exact .fail _
  | some fields => exact (eachQuiet fun fd _ => augmentRootField_traces ..).map _

lemma augmentRoot_traces (cat : Catalog) (root : RootType) : (augmentRoot cat root).Traces
    (augmentedRoot cat root, (cat.extensionsOf root.name).map (augmentedRootExtension cat)) [] :=
  (eachQuiet fun _ _ => augmentRootField_traces ..).bind
    ((eachQuiet fun _ _ => augmentRootExtension_traces ..).map _)

def rootExtensions (cat : Catalog) : NameMap (List TypeExt) :=
  .ofList (cat.roots.map fun entry =>
    (entry.2.name, (cat.extensionsOf entry.2.name).map (augmentedRootExtension cat)))

/-- The pass over operation types reports no steps. -/
theorem augmentRoots_traces (cat : Catalog) : (augmentRoots cat).Traces
    (cat.roots.map fun e => (e.1, augmentedRoot cat e.2), rootExtensions cat) [] := by
  have hma := (eachQuiet fun e (_ : e ∈ cat.roots) => augmentRoot_traces cat e.2).map
      fun outcomes =>
    (cat.roots.zipWith (fun e outcome => (e.1, outcome.1)) outcomes,
      NameMap.ofList (outcomes.map fun outcome => (outcome.1.name, outcome.2)))
  unfold augmentRoots
  simpa [zipWith_map_right, rootExtensions, augmentedRoot, RootType.name,
    Function.comp_def] using hma

/-! ## All types -/

def augmentedType (cat : Catalog) (defn : TypeDef) : TypeDef :=
  if defn.isNode then augmentedNode cat defn else defn

def augmentedExtensions? (cat : Catalog) (defn : TypeDef) : Option (List TypeExt) :=
  if defn.isNode then some ((cat.extensionsOf defn.name).map (augmentedExtension cat defn))
  else none

def typeEffects (cat : Catalog) (defn : TypeDef) : List Event :=
  if defn.isNode then nodeEffects cat defn else []

lemma augmentType_traces (cat : Catalog) (defn : TypeDef) : (augmentType cat defn).Traces
    (augmentedType cat defn, augmentedExtensions? cat defn) (typeEffects cat defn) := by
  unfold augmentType augmentedType augmentedExtensions? typeEffects
  refine (check _).bind ?_
  cases defn.isNode with
  | false => exact .pure _
  | true => exact (augmentNodeType_traces cat defn).map _

/-- The pass over all types reports the steps for each of them in order. -/
theorem augmentTypes_traces (cat : Catalog) :
    (augmentTypes cat).Traces (cat.types.values.map fun defn =>
        (augmentedType cat defn, augmentedExtensions? cat defn))
        (cat.types.values.flatMap (typeEffects cat)) :=
  .each fun _ _ => augmentType_traces ..

open List TypeInputs FieldInfo

@[simp] lemma eraseDups_eq_nil_iff {vals : List Name} : vals.eraseDups = [] ↔ vals = [] := by
  cases vals <;> simp [eraseDups_cons]

namespace TypeInputs

lemma foldl_addValue (vals : List Name) : vals.foldl addValue [] = vals.eraseDups := by
  induction vals using reverseRecOn with
  | nil => rfl
  | append_singleton vals value ih =>
    rw [foldl_concat, ih, eraseDups_append, addValue]
    by_cases h : value ∈ vals <;> simp [removeAll, eraseDups_cons, h]

lemma foldl_add {α : Type} (filters : α → List ArgumentDef) (ordering : α → List Name) (items : List α)
    (start : TypeInputs) :
    items.foldl (fun inputs item => (inputs.addFilters (filters item)).addOrdering (ordering item)) start = { start with
        filters := start.filters ++ items.flatMap filters
        ordering := (items.flatMap ordering).foldl addValue start.ordering } := by
  induction items generalizing start with
  | nil => simp
  | cons item rest ih =>
    rw [foldl_cons, ih]
    simp [addFilters, addOrdering]

end TypeInputs

def FieldInfo.ordering (info : FieldInfo) : List Name :=
  if info.isOrderable then orderingValues info.name else []

def FieldInfo.storedFilters (cfg : Settings) (info : FieldInfo) : List ArgumentDef :=
  if info.isStored then propertyFilters cfg info else []

lemma nodeInputs_eq (cat : Catalog) (defn : TypeDef) : nodeInputs cat defn =
    { filterName := filterName defn.name, orderingName := orderingName defn.name
      filters := (cat.membersOf defn).flatMap fun fd => (fieldGain cat defn fd).filters
      ordering := (((cat.membersOf defn).flatMap fun fd => (fieldGain cat defn fd).ordering) ++
        if defn.isObject then orderingValues systemId else []).eraseDups } := by
  unfold nodeInputs gatherInputs nodeGains
  rw [foldl_add, ← foldl_addValue]
  cases defn.isObject <;> simp [ofType, addSystemId, addOrdering, flatMap_map]

lemma Relationship.inputs_eq (cfg : Settings) (rel : Relationship) (naming : Name) : rel.inputs cfg naming =
    { filterName := rel.filterName naming, orderingName := rel.orderingName
      filters := rel.properties.flatMap (·.storedFilters cfg) ++
        [{ name := rel.relatedField, type := .plain (GraphApi.filterName rel.relatedType) }]
      ordering := (rel.properties.flatMap (·.ordering) ++ orderingValues systemId).eraseDups } := by
  have hadd : addProperty cfg = fun inputs info =>
      (inputs.addFilters (info.storedFilters cfg)).addOrdering info.ordering := by
    funext inputs info
    unfold addProperty storedFilters FieldInfo.ordering
    split <;> split <;> simp [addFilters, addOrdering]
  rw [inputs, hadd, foldl_add, ← foldl_addValue]
  simp [addSystemId, addOrdering, addFilters]

lemma ordering_fieldGain (cat : Catalog) (defn : TypeDef) (fd : FieldDef) :
    (fieldGain cat defn fd).ordering = (fd.describe cat.types).ordering := by
  have hnot (h : (fd.describe cat.types).kind ≠ .property ∨ (fd.describe cat.types).isIgnored) :
      (fd.describe cat.types).ordering = [] := by
    rcases h with h | h <;> simp [FieldInfo.ordering, isOrderable, isStored, h]
  rcases fieldGain_cases cat defn fd with ⟨-, -, hga⟩ | ⟨-, hk, hga⟩ | ⟨rel, hre,
    hga⟩ | ⟨hk, -, hga⟩
  · simp [hga, propertyGain, FieldInfo.ordering]
  · simp [hga, nodeFieldGain, hnot (.inl (by simp [hk]))]
  · simp [hga, relationshipGain, hnot (.inl (by simp [hre.kind]))]
  · rw [hga, hnot (hk.symm.imp_left And.left)]

end GraphApi
