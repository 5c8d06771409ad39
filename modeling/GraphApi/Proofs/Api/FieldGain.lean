import GraphApi.Proofs.Api.Pass

/-!
# What a field becomes

The outcome of the pass over one field of a node type, without the steps: the augmented field, what
its type gains, and the types that the pass registers. Main statement: `augmentField_traces`.
-/

namespace GraphApi

open List Relationship Catalog FieldDef Run Pass Yields Option FieldInfo

variable {cat : Catalog} {isInput : Bool} {info : FieldInfo} {defn owner : TypeDef}
  {gain : FieldGain} {rel : Relationship} {fd : FieldDef}

/-- Whether the ends of a relationship both have the query API. -/
def Relationship.isQueried (cat : Catalog) (rel : Relationship) : Bool :=
  cat.augments .query rel.sourceType && cat.augments .query rel.targetType

/-- Whether the ends of a relationship can both be selected. -/
def Relationship.isMutable (cat : Catalog) (rel : Relationship) : Bool :=
  cat.canMutate rel.sourceType && cat.canMutate rel.targetType

/-- The interface whose generated types a field shares: the first that declares the field, if it has
the query API. -/
def Catalog.shared? (cat : Catalog) (defn : TypeDef) (field : Name) : Option Name :=
  (definingInterface? cat defn field).filter (cat.augments .query)

def Catalog.naming (cat : Catalog) (defn : TypeDef) (field : Name) : Name :=
  (cat.shared? defn field).getD defn.name

/-- Whether fields of a type that return nodes of another take arguments that page, order and filter
them. -/
def Catalog.takesArguments (cat : Catalog) (owner type : Name) : Bool :=
  (match cat.operationOf? owner with
    | some .mutation | some .subscription => false
    | some .query | none => true) && cat.augments .query type

def nodeFieldArguments (cat : Catalog) (owner : Name) (info : FieldInfo) : List ArgumentDef :=
  if cat.takesArguments owner info.type then nodeArguments cat info else info.field.arguments

def Catalog.reached? (cat : Catalog) (defn : TypeDef) (field : FieldDef) : Option Relationship :=
  match cat.types.get? field.type.base with
  | some desc =>
    desc.endpoints?.map fun ends =>
      describeRelationshipType cat defn.name field.name desc ends.1 ends.2
  | none => none

def Relationship.mutations (cat : Catalog) (rel : Relationship) : List FieldDef :=
  if rel.isMutable cat then rel.actions.map (rel.mutation cat.settings) else []

def Relationship.mutationDefs (cat : Catalog) (rel : Relationship) : List TypeDef :=
  if rel.isMutable cat then rel.mutationTypes else []

def Relationship.queryDefs (cat : Catalog) (defn : TypeDef) (info : FieldInfo)
    (rel : Relationship) : List TypeDef :=
  let naming := cat.naming defn info.name
  if rel.isQueried cat then
    rel.outputType (rel.outputName naming) ::
      ((if rel.isReflexive then
        [rel.directionsType naming (rel.arguments naming info)] else []) ++
      if (cat.shared? defn info.name).isNone then rel.inputTypes cat.settings naming else [])
  else []

def nodeFieldFilters (cat : Catalog) (info : FieldInfo) : List ArgumentDef :=
  if info.isRelation && cat.augments .query info.type then
    relationFilters info.name (filterName info.type) info.isList
  else []

def nodeFieldGain (cat : Catalog) (defn : TypeDef) (info : FieldInfo) : FieldGain where
  field := { info.field with arguments := nodeFieldArguments cat defn.name info }
  filters := nodeFieldFilters cat info
  mutations :=
    if info.isRelation && !info.isComputed && defn.isObject then
      (describeRelation defn.name info).mutations cat
    else []

def Relationship.augmented (cat : Catalog) (defn : TypeDef) (info : FieldInfo)
    (rel : Relationship) : FieldDef × List ArgumentDef :=
  let naming := cat.naming defn info.name
  if rel.isQueried cat then
    (rel.retype naming info, relationFilters info.name (rel.ownerFilter naming) info.isList)
  else (info.field, [])

def relationshipGain (cat : Catalog) (defn : TypeDef) (info : FieldInfo) (rel : Relationship) :
    FieldGain where
  field := (rel.augmented cat defn info).1
  filters := (rel.augmented cat defn info).2
  mutations := if defn.isObject then rel.mutations cat else []

def fieldGain (cat : Catalog) (defn : TypeDef) (field : FieldDef) : FieldGain :=
  let info := field.describe cat.types
  if info.isIgnored then { field }
  else match info.kind with
    | .property => propertyGain cat.settings info
    | .node => nodeFieldGain cat defn info
    | .relationship =>
      match cat.reached? defn field with
      | some rel => if info.isComputed then { field } else relationshipGain cat defn info rel
      | none => { field }
    | .other => { field }

def fieldTypes (cat : Catalog) (defn : TypeDef) (field : FieldDef) : List TypeDef :=
  let info := field.describe cat.types
  if info.isIgnored || info.isComputed then []
  else match info.kind with
    | .node =>
      if info.isRelation && defn.isObject then (describeRelation defn.name info).mutationDefs cat
        else []
    | .relationship =>
      match cat.reached? defn field with
      | some rel =>
        rel.queryDefs cat defn info ++
          if defn.isObject then rel.mutationDefs cat else []
      | none => []
    | .property | .other => []

/-! ## The parts of the pass -/

variable (types : NameMap TypeDef)

@[simp] lemma FieldDef.describe_field (fd : FieldDef) : (fd.describe types).field = fd := by
  unfold describe
  split <;> rfl

@[simp] lemma FieldDef.describe_name (fd : FieldDef) : (fd.describe types).name = fd.name := by
  simp [FieldInfo.name]

@[simp] lemma FieldDef.describe_type (fd : FieldDef) : (fd.describe types).type = fd.type.base := by
  simp [FieldInfo.type]

lemma outputArguments_yields (cat : Catalog) (owner : Name) (info : FieldInfo) :
    (augmentNodeArguments cat owner false info).Yields (nodeFieldArguments cat owner info) [] := by
  have has : (do
      if ← augments cat .query info.type then return nodeArguments cat info
      return info.field.arguments : Pass (List ArgumentDef)).Yields
        (if cat.augments .query info.type then nodeArguments cat info
          else info.field.arguments) [] := by
    refine (augments_yields cat .query info.type).bind ?_
    split <;> exact .pure _
  unfold augmentNodeArguments nodeFieldArguments takesArguments
  generalize cat.operationOf? owner = op
  rcases op with _ | (_ | _ | _)
  · simpa using has
  · simpa using has
  · exact .pure _
  · exact .pure _

lemma augmentNodeArguments_traces (cat : Catalog) (owner : Name) (isInput : Bool)
    (info : FieldInfo) :
    (augmentNodeArguments cat owner isInput info).Traces
      (nodeFieldArguments cat owner info) [] := by
  cases isInput with
  | true => exact .fail_bind _ _
  | false => exact (outputArguments_yields cat owner info).traces

variable (cat)

lemma nodeRelationFilters_yields (info : FieldInfo) :
    (nodeRelationFilters cat info).Yields (nodeFieldFilters cat info) [] := by
  unfold nodeRelationFilters nodeFieldFilters
  cases info.isRelation with
  | false => exact .pure _
  | true =>
    refine (augments_yields cat .query info.type).bind ?_
    cases cat.augments .query info.type <;> exact .pure _

lemma Relationship.augments_yields (rel : Relationship) :
    (rel.augments cat .query).Yields (rel.isQueried cat) [] := by
  unfold augments isQueried
  refine (Pass.augments_yields cat .query rel.sourceType).bind ?_
  cases cat.augments .query rel.sourceType with
  | false => exact .pure _
  | true => exact Pass.augments_yields cat .query rel.targetType

lemma sharedInterface?_yields (defn : TypeDef) (fd : Name) :
    (sharedInterface? cat defn fd).Yields (cat.shared? defn fd) [] := by
  unfold sharedInterface? shared?
  cases definingInterface? cat defn fd with
  | none => exact .pure _
  | some iface =>
    refine (augments_yields cat .query iface).bind ?_
    cases h : cat.augments .query iface <;> simpa [Option.filter, h] using pure _

lemma Pass.canMutate_yields (type : Name) : (canMutate cat type).Yields (cat.canMutate type) [] :=
  (augments_yields cat .mutation type).bind (.pure _)

lemma firstImmutable_yields (types : List Name) :
    (firstImmutable cat types).Yields (types.find? fun type => !cat.canMutate type) [] := by
  induction types with
  | nil => exact .pure _
  | cons type rest ih =>
    refine (canMutate_yields cat type).bind ?_
    cases h : cat.canMutate type with
    | false => simpa [find?, h] using pure _
    | true => simpa [find?, h] using ih

variable {cat}

lemma Catalog.root?_isSome_of_augments {kind : OperationKind} {type : Name}
    (h : cat.augments kind type) : (cat.root? kind).isSome := by
  simp only [augments, Bool.and_eq_true] at h
  exact h.1.1

lemma augmentRelationshipMutation_yields (cat : Catalog) (rel : Relationship) :
    (augmentRelationshipMutation cat rel).Yields (rel.mutations cat)
      ((rel.mutationDefs cat).map (.register · false)) := by
  unfold augmentRelationshipMutation mutations mutationDefs isMutable
  cases hr : cat.root? .mutation with
  | none =>
    have him : ∀ type, cat.canMutate type = false := by
      intro type
      by_contra hcan
      simp only [Catalog.canMutate, Bool.not_eq_false, Bool.and_eq_true] at hcan
      simpa [hr] using root?_isSome_of_augments hcan.1.1
    simpa [him] using pure _
  | some root =>
    refine (firstImmutable_yields cat _).bind ?_
    cases hsrc : cat.canMutate rel.sourceType with
    | false =>
      simp only [find?, hsrc, Bool.not_false, Bool.false_and, Bool.false_eq_true, if_false, map_nil]
      exact (Yields.note _ _).bind (.pure _)
    | true =>
      cases ht : cat.canMutate rel.targetType with
      | false =>
        simp only [find?, hsrc, ht, Bool.not_true, Bool.not_false, Bool.and_false,
          Bool.false_eq_true, if_false, map_nil]
        exact (Yields.note _ _).bind (.pure _)
      | true =>
        simp only [find?, hsrc, ht, Bool.not_true, Bool.and_self, if_true]
        exact (Yields.registerAll rel.mutationTypes).map _

/-! ## The pass over a field -/

lemma augmentNodeField_traces (cat : Catalog) (defn : TypeDef) (isInput : Bool) (info : FieldInfo) :
    (augmentNodeField cat defn isInput info).Traces (nodeFieldGain cat defn info)
      ((if info.isRelation && !info.isComputed && defn.isObject then
        (describeRelation defn.name info).mutationDefs cat else []).map (.register · false)) := by
  refine (augmentNodeArguments_traces ..).bind
    ((nodeRelationFilters_yields cat info).traces.bind ?_)
  unfold nodeFieldGain
  split
  · exact (Traces.check _).bind ((augmentRelationshipMutation_yields cat _).traces.map _)
  · exact .pure _

lemma augmentRelationshipQuery_traces (ho : rel.owner = defn.name) (hf : rel.field = info.name) :
    (augmentRelationshipQuery cat defn isInput info rel).Traces (rel.augmented cat defn info)
      ((rel.queryDefs cat defn info).map (.register · false)) := by
  unfold augmentRelationshipQuery augmented queryDefs naming
  refine (rel.augments_yields cat).traces.bind ?_
  cases rel.isQueried cat with
  | false => exact .pure _
  | true =>
    simp only [Bool.not_true, Bool.false_eq_true, if_false, if_true, hf, ho]
    -- the output type is registered even if the pass fails at a member of an input type
    refine (sharedInterface?_yields cat defn info.name).traces.bind
      ((Yields.register _).traces.bind ?_)
    cases isInput with
    | true => exact .fail_bind _ _
    | false =>
      cases hrefl : rel.isReflexive <;> cases hsh : cat.shared? defn info.name
      · exact ((registerAll _).map _).traces
      · exact .pure _
      · exact ((Yields.register _).bind ((registerAll _).map _)).traces
      · exact ((Yields.register _).map _).traces

lemma augmentRelationshipField_traces {desc : TypeDef} {source target : FieldDef}
    (hcm : info.isComputed = false) :
    let rel := describeRelationshipType cat defn.name info.name desc source target
    (augmentRelationshipField cat defn isInput info desc source target).Traces
      (relationshipGain cat defn info rel) ((rel.queryDefs cat defn info ++
        if defn.isObject then rel.mutationDefs cat else []).map (.register · false)) := by
  intro rel
  unfold augmentRelationshipField
  rw [hcm, map_append]
  refine (Traces.check _).bind ((Traces.check _).bind
    ((Traces.check _).bind ((Yields.note _ _).traces.bind
    ((augmentRelationshipQuery_traces rfl rfl).bind ?_))))
  unfold relationshipGain
  cases defn.isObject with
  | false => exact .pure _
  | true => exact ((augmentRelationshipMutation_yields cat rel).map _).traces

/-- The pass over a field registers the types of the field, and makes of it what the field gains. -/
theorem augmentField_traces (cat : Catalog) (defn : TypeDef) (isInput : Bool) (fd : FieldDef) :
    (augmentField cat defn isInput fd).Traces (fieldGain cat defn fd)
      ((fieldTypes cat defn fd).map (.register · false)) := by
  unfold augmentField fieldGain fieldTypes
  simp only
  cases hig : (fd.describe cat.types).isIgnored with
  | true => exact .pure _
  | false =>
    cases hk : (fd.describe cat.types).kind with
    | property =>
      simp only [ite_self, map_nil]
      exact .pure _
    | node =>
      have htr := augmentNodeField_traces cat defn isInput (fd.describe cat.types)
      cases hcm : (fd.describe cat.types).isComputed <;> simpa [hcm] using htr
    | relationship =>
      unfold reached?
      simp only [describe_type]
      cases cat.types.get? fd.type.base with
      | none => simpa using Traces.pure _
      | some desc =>
        dsimp only
        cases desc.endpoints? with
        | none => simpa using Traces.pure _
        | some ends =>
          cases hcm : (fd.describe cat.types).isComputed with
          | true =>
            unfold augmentRelationshipField
            simp only [hcm, Bool.or_true, if_true, map_nil, map_some, describe_field]
            exact (Traces.check _).map _
          | false => simpa using augmentRelationshipField_traces hcm
    | other =>
      simp only [ite_self, map_nil]
      exact .pure _

/-! ## Where the types of a field come from -/

lemma FieldDef.bind_classification_of_kind {types : NameMap TypeDef} :
    ((fd.describe types).kind = .node →
      (types.get? fd.type.base).bind TypeDef.classification = some .node) ∧
      ((fd.describe types).kind = .relationship →
        (types.get? fd.type.base).bind TypeDef.classification = some .relationship) := by
  unfold describe
  split
  · exact ⟨nofun, nofun⟩
  · unfold kindOf
    split
    next hno => exact ⟨fun _ => hno, nofun⟩
    next hrel => exact ⟨nofun, fun _ => hrel⟩
    · exact ⟨nofun, nofun⟩

lemma Catalog.reached?_eq_some : cat.reached? defn fd = some rel ↔
    ∃ desc ends, cat.types.get? fd.type.base = some desc ∧ desc.endpoints? = some ends ∧
      rel = describeRelationshipType cat defn.name fd.name desc ends.1 ends.2 := by
  unfold reached?
  cases cat.types.get? fd.type.base with
  | none => simp
  | some desc =>
    constructor
    · intro h
      obtain ⟨ends, hen, rfl⟩ := map_eq_some_iff.mp h
      exact ⟨desc, ends, rfl, hen, rfl⟩
    · rintro ⟨other, ends, heq, hen, rfl⟩
      obtain rfl := some.inj heq
      exact map_eq_some_iff.mpr ⟨ends, hen, rfl⟩

/-- A field through which a relationship is queried: it is of a relationship type, in the API and
not computed. -/
structure Catalog.Reaches (cat : Catalog) (owner : TypeDef) (field : FieldDef)
    (rel : Relationship) : Prop where
  kind : (field.describe cat.types).kind = .relationship
  ignored : (field.describe cat.types).isIgnored = false
  computed : (field.describe cat.types).isComputed = false
  reached : cat.reached? owner field = some rel

/-- A field through which a relationship is changed: one of an object type that reaches it, or a
`relation` field. -/
inductive Catalog.Relates (cat : Catalog) (owner : TypeDef) (field : FieldDef) : Relationship → Prop
  | reached {rel : Relationship} (hobject : owner.isObject) (h : cat.Reaches owner field rel) :
      Relates cat owner field rel
  | relation (hobject : owner.isObject) (hkind : (field.describe cat.types).kind = .node)
      (hignored : (field.describe cat.types).isIgnored = false)
      (hcomp : (field.describe cat.types).isComputed = false)
      (hrelation : (field.describe cat.types).isRelation) :
      Relates cat owner field (describeRelation owner.name (field.describe cat.types))

lemma Catalog.Relates.names (h : cat.Relates owner fd rel) :
    rel.owner = owner.name ∧ rel.field = fd.name := by
  cases h with
  | reached hobj hre =>
    obtain ⟨desc, ends, -, -, rfl⟩ := reached?_eq_some.mp hre.reached
    exact ⟨rfl, rfl⟩
  | relation => exact ⟨rfl, describe_name _ _⟩

lemma Relationship.mem_mutations : fd ∈ rel.mutations cat ↔ rel.isMutable cat ∧
    ∃ action ∈ rel.actions, fd = rel.mutation cat.settings action := by
  unfold mutations
  cases rel.isMutable cat with
  | false => simp
  | true => simp [eq_comm]

lemma Relationship.mem_mutationDefs : defn ∈ rel.mutationDefs cat ↔ rel.isMutable cat ∧
    ((rel.storedProperties ≠ [] ∧ defn = rel.propertyInput) ∨ ∃ action ∈ rel.actions,
      defn = rel.payloadType action) := by
  unfold mutationDefs mutationTypes
  cases rel.isMutable cat with
  | false => simp
  | true => cases rel.storedProperties <;> simp [eq_comm]

lemma Relationship.mem_queryDefs : let naming := cat.naming owner info.name
    defn ∈ rel.queryDefs cat owner info ↔ rel.isQueried cat ∧
        (defn = rel.outputType (rel.outputName naming) ∨
        (rel.isReflexive ∧ defn = rel.directionsType naming (rel.arguments naming info)) ∨
        (cat.shared? owner info.name = none ∧ (defn = (rel.inputs cat.settings naming).filterType ∨
            defn = (rel.inputs cat.settings naming).orderingType ∨
            (rel.isReflexive ∧ defn = rel.directionsFilter)))) := by
  intro naming
  unfold queryDefs inputTypes
  cases rel.isQueried cat with
  | false => simp
  | true => cases rel.isReflexive <;> cases cat.shared? owner info.name <;> simp [naming]

lemma mem_fieldTypes : defn ∈ fieldTypes cat owner fd ↔ (∃ rel, cat.Reaches owner fd rel ∧
      defn ∈ rel.queryDefs cat owner (fd.describe cat.types)) ∨
    ∃ rel, cat.Relates owner fd rel ∧ defn ∈ rel.mutationDefs cat := by
  constructor
  · intro h
    unfold fieldTypes at h
    dsimp only at h
    split at h
    · simp at h
    next hin =>
      simp only [Bool.or_eq_true, not_or, Bool.not_eq_true] at hin
      split at h
      next hk =>
        split at h
        next hrl =>
          rw [Bool.and_eq_true] at hrl
          exact .inr ⟨_, .relation hrl.2 hk hin.1 hin.2 hrl.1, h⟩
        · simp at h
      next hk =>
        split at h
        next rel hrc =>
          have hre : cat.Reaches owner fd rel := ⟨hk, hin.1, hin.2, hrc⟩
          rcases mem_append.mp h with h | h
          · exact .inl ⟨rel, hre, h⟩
          · split at h
            next hobj => exact .inr ⟨rel, .reached hobj hre, h⟩
            · simp at h
        · simp at h
      · simp at h
      · simp at h
  · have hrc {rel : Relationship} (hre : cat.Reaches owner fd rel) :
        fieldTypes cat owner fd = rel.queryDefs cat owner (fd.describe cat.types) ++
          if owner.isObject then rel.mutationDefs cat else [] := by
      simp [fieldTypes, hre.kind, hre.ignored, hre.computed, hre.reached]
    rintro (⟨rel, hre, h⟩ | ⟨rel, hrel, h⟩)
    · rw [hrc hre]
      exact mem_append_left _ h
    · cases hrel with
      | reached hobj hre =>
        rw [hrc hre, if_pos hobj]
        exact mem_append_right _ h
      | relation hobj hk hig hcm hrl =>
        simpa [fieldTypes, hk, hig, hcm, hrl, hobj] using h

/-- What a node type gains by a field. One that is left out of the API, and a computed one of a
relationship type, give nothing and stay as they are. -/
lemma fieldGain_cases (cat : Catalog) (owner : TypeDef) (fd : FieldDef) :
    let info := fd.describe cat.types
    (info.isIgnored = false ∧ info.kind = .property ∧
      fieldGain cat owner fd = propertyGain cat.settings info) ∨
      (info.isIgnored = false ∧ info.kind = .node ∧
        fieldGain cat owner fd = nodeFieldGain cat owner info) ∨
      (∃ rel, cat.Reaches owner fd rel ∧
        fieldGain cat owner fd = relationshipGain cat owner info rel) ∨
      ((info.isIgnored ∨ info.kind ≠ .property ∧ info.kind ≠ .node) ∧
        (∀ rel, ¬ cat.Reaches owner fd rel) ∧ fieldGain cat owner fd = { field := fd }) := by
  dsimp only
  cases hig : (fd.describe cat.types).isIgnored with
  | true =>
    refine .inr (.inr (.inr ⟨.inl rfl, fun rel hre => ?_, by simp [fieldGain, hig]⟩))
    simp [hre.ignored] at hig
  | false =>
    cases hk : (fd.describe cat.types).kind with
    | property => exact .inl ⟨rfl, rfl, by simp [fieldGain, hig, hk]⟩
    | node => exact .inr (.inl ⟨rfl, rfl, by simp [fieldGain, hig, hk]⟩)
    | relationship =>
      cases hrc : cat.reached? owner fd with
      | none =>
        refine .inr (.inr (.inr ⟨.inr (by simp), fun rel hre =>
          ?_, by simp [fieldGain, hig, hk, hrc]⟩))
        simp [hre.reached] at hrc
      | some rel =>
        cases hcm : (fd.describe cat.types).isComputed with
        | false => exact .inr (.inr
            (.inl ⟨rel, ⟨hk, hig, hcm, hrc⟩, by simp [fieldGain, hig, hk, hrc, hcm]⟩))
        | true =>
          refine .inr (.inr (.inr ⟨.inr (by simp), fun rel hre =>
            ?_, by simp [fieldGain, hig, hk, hrc, hcm]⟩))
          simp [hre.computed] at hcm
    | other =>
      refine .inr (.inr (.inr ⟨.inr (by simp), fun rel hre => ?_, by simp [fieldGain, hig, hk]⟩))
      simp [hre.kind] at hk

lemma mem_fieldGain_mutations (hobj : owner.isObject) {mutation : FieldDef}
    (h : mutation ∈ (fieldGain cat owner fd).mutations) :
    ∃ rel, cat.Relates owner fd rel ∧ mutation ∈ rel.mutations cat := by
  rcases fieldGain_cases cat owner fd with ⟨-, -, hga⟩ | ⟨hig, hk, hga⟩ | ⟨rel, hre,
    hga⟩ | ⟨-, -, hga⟩
  · simp [hga, propertyGain] at h
  · rw [hga, nodeFieldGain] at h
    split at h
    next hrel =>
      simp only [Bool.and_eq_true, Bool.not_eq_true'] at hrel
      exact ⟨_, .relation hobj hk hig hrel.1.2 hrel.1.1, h⟩
    · simp at h
  · rw [hga, relationshipGain, if_pos hobj] at h
    exact ⟨rel, .reached hobj hre, h⟩
  · simp [hga] at h

/-- What a field of a node type becomes: it stays, it takes the arguments of a field that returns
nodes, or it is retyped to lead to a relationship. -/
lemma fieldGain_field_cases (cat : Catalog) (owner : TypeDef) (fd : FieldDef) :
    let info := fd.describe cat.types
    (fieldGain cat owner fd).field = fd ∨
      (info.kind = .node ∧ info.isIgnored = false ∧ (fieldGain cat owner fd).field =
        { fd with arguments := nodeFieldArguments cat owner.name info }) ∨
      ∃ rel, cat.Reaches owner fd rel ∧ rel.isQueried cat ∧
        (fieldGain cat owner fd).field = rel.retype (cat.naming owner fd.name) info := by
  intro info
  rcases fieldGain_cases cat owner fd with ⟨-, -, hga⟩ | ⟨hig, hk, hga⟩ | ⟨rel, hre,
    hga⟩ | ⟨-, -, hga⟩
  · exact .inl (by simp [hga, propertyGain])
  · exact .inr (.inl ⟨hk, hig, by simp [hga, nodeFieldGain, info]⟩)
  · rw [hga, relationshipGain, augmented]
    split
    next hq => exact .inr (.inr ⟨rel, hre, hq, by simp [info]⟩)
    · exact .inl (by simp)
  · exact .inl (by simp [hga])

/-- The filters that a node type gets by a field. -/
inductive Catalog.GivesFilters (cat : Catalog) (owner : TypeDef) (field : FieldDef) :
    List ArgumentDef → Prop
  | property (h : (field.describe cat.types).isStored) :
    GivesFilters cat owner field (propertyFilters cat.settings (field.describe cat.types))
  | relation (hkind : (field.describe cat.types).kind = .node)
      (hignored : (field.describe cat.types).isIgnored = false)
      (hrelation : (field.describe cat.types).isRelation)
      (hquery : cat.augments .query field.type.base) :
      GivesFilters cat owner field (relationFilters field.name (filterName field.type.base)
        (field.describe cat.types).isList)
  | relationship {rel : Relationship} (h : cat.Reaches owner field rel) (hquery : rel.isQueried cat) :
      GivesFilters cat owner field (relationFilters field.name
        (rel.ownerFilter (cat.naming owner field.name)) (field.describe cat.types).isList)
  | nothing (hstored : (field.describe cat.types).isStored = false)
      (hrelation : (field.describe cat.types).kind = .node →
        (field.describe cat.types).isIgnored = false → (field.describe cat.types).isRelation →
        cat.augments .query field.type.base = false)
      (hrelationship : ∀ rel, cat.Reaches owner field rel → rel.isQueried cat = false) :
      GivesFilters cat owner field []

lemma givesFilters_fieldGain (cat : Catalog) (owner : TypeDef) (fd : FieldDef) :
    cat.GivesFilters owner fd (fieldGain cat owner fd).filters := by
  have hrc {rel : Relationship} (hk : (fd.describe cat.types).kind ≠ .relationship) :
      cat.Reaches owner fd rel → rel.isQueried cat = false := fun hre => absurd hre.kind hk
  have hst (hk : (fd.describe cat.types).kind ≠ .property) : (fd.describe cat.types).isStored = false := by
    simp [isStored, hk]
  rcases fieldGain_cases cat owner fd with ⟨-, hk, hga⟩ | ⟨hig, hk, hga⟩ | ⟨rel, hre, hga⟩ | ⟨hk, hre, hga⟩
  · rw [hga, propertyGain]
    split
    · exact .property ‹_›
    next hnot => exact .nothing (by simpa using hnot) (by simp [hk]) fun _ => hrc (by simp [hk])
  · rw [hga, nodeFieldGain, nodeFieldFilters]
    split
    next hrel =>
      simp only [describe_type, Bool.and_eq_true] at hrel
      simpa using GivesFilters.relation hk hig hrel.1 hrel.2
    next hrel => exact .nothing (hst (by simp [hk])) (fun _ _ => by simpa using hrel) fun _ => hrc (by simp [hk])
  · rw [hga, relationshipGain, augmented]
    split
    · simpa using GivesFilters.relationship hre ‹_›
    next hq =>
      refine .nothing (hst (by simp [hre.kind])) (by simp [hre.kind]) fun other ho => ?_
      obtain rfl := some.inj (hre.reached.symm.trans ho.reached)
      simpa using hq
  · rw [hga]
    refine .nothing ?_ (fun hno hig => ?_) fun rel h => absurd h (hre rel)
    · rcases hk with hk | hk <;> simp [isStored, hk]
    · rcases hk with hk | hk
      · simp [hk] at hig
      · exact absurd hno hk.2

end GraphApi
