import GraphApi.Proofs.Api.InputValues

/-!
# Every input value is accounted for

The declared types, the registered types and the offered fields are gone through one after another.
Main statement: `Catalog.accounts_of_mem_inputSites`, each input value of an augmented document is
declared or accounted for.
-/

namespace GraphApi.Catalog

open List TypeBody FieldDef Relationship NameMap AccountsAll FieldInfo Option

variable {type : Name} {info : FieldInfo} {owner defn : TypeDef} {fd : FieldDef}
  {rel : Relationship}
  {extn : TypeExt} {root : OperationKind × RootType} {isInput : Bool} {site : InputSite}

section Generated

variable {cat : Catalog} {decl : List (Name × Name)}

/-! ## Properties -/

lemma exists_of_mem_fieldInfos (h : info ∈ cat.fieldInfos type) :
    ∃ fd : FieldDef, info = fd.describe cat.types ∧ fd.type.base ∈ cat.memberTypes := by
  obtain ⟨fd, hf, rfl⟩ := mem_map.mp h
  refine ⟨fd, rfl, mem_map_of_mem ?_⟩
  rcases mem_append.mp hf with hf | hf
  · cases hg : cat.types.get? type with
    | none => simp [hg] at hf
    | some defn =>
      refine mem_append_left _ (mem_flatMap.mpr ⟨defn, ?_, by simpa [hg] using hf⟩)
      exact mem_map_of_mem (mem_of_get? hg)
  · obtain ⟨extn, hx, hf⟩ := mem_flatMap.mp hf
    exact mem_append_right _ (mem_flatMap.mpr ⟨extn, mem_extensions_of_mem_extensionsOf hx, hf⟩)

lemma accounts_of_isStored (h : info ∈ cat.fieldInfos type) (hst : info.isStored)
    (name : Name) : cat.Accounts decl (name, info.type) := by
  obtain ⟨fd, rfl, hm⟩ := exists_of_mem_fieldInfos h
  exact accounts_property (kind_of_isStored hst) hm name

/-! ## Relationships -/

variable (hs : cat.IsSorted)
include hs

lemma accountsAll_nodeFieldArguments {owner : Name} (h : cat.AccountsAll decl fd.arguments) :
    cat.AccountsAll decl (nodeFieldArguments cat owner (fd.describe cat.types)) := by
  unfold nodeFieldArguments
  split
  next hta =>
    simp only [takesArguments, Bool.and_eq_true] at hta
    unfold nodeArguments
    rw [describe_field]
    refine accountsAll_queryArguments h ?_ ?_
    · exact fun given => accounts_ordering? hs hta.2
    · intro given hg name
      split at hg
      · cases hg
      · rw [← some.inj hg]
        exact accounts_of_provides hs .filter hta.2 name
  · rwa [describe_field]

section

variable (hno : owner ∈ cat.nodes) (hf : fd ∈ cat.membersOf owner)
include hno hf

/-- The inputs of a queried relationship are accounted for. -/
lemma accounts_relationship_inputs (hre : cat.Reaches owner fd rel)
    (hq : rel.isQueried cat) (decl : List (Name × Name)) (name : Name) :
    cat.Accounts decl (name, rel.filterName (cat.naming owner fd.name)) ∧
      cat.Accounts decl (name, rel.orderingName) ∧
      cat.Accounts decl (name, rel.ownerFilter (cat.naming owner fd.name)) := by
  cases hsh : cat.shared? owner fd.name with
  | some iface =>
    have hna : cat.naming owner fd.name = iface := by simp [naming, hsh]
    have hbo {name : Name} (h : name = rel.filterName iface ∨ name = rel.orderingName ∨
        (rel.isReflexive ∧ name = rel.directionsFilterName)) : cat.Borrows name :=
      ⟨owner, hno, fd, hf, rel, iface, hre, hq, hsh, h⟩
    rw [hna]
    refine ⟨.borrowed (hbo (.inl rfl)), .borrowed (hbo (.inr (.inl rfl))), ?_⟩
    unfold ownerFilter
    split
    next hrefl => exact .borrowed (hbo (.inr (.inr ⟨hrefl, rfl⟩)))
    · exact .borrowed (hbo (.inl rfl))
  | none =>
    have hna : cat.naming owner fd.name = owner.name := by simp [naming, hsh]
    have hreg {type : Name} (h : type = rel.filterName owner.name ∨ type = rel.orderingName ∨
        (rel.isReflexive ∧ type = rel.directionsFilterName)) :
        cat.Accounts decl (name, type) := by
      obtain ⟨defn, hd, rfl⟩ := registers_inputs_of_reaches hno hf hre hq hsh h
      exact accounts_of_registers hs hd name
    rw [hna]
    refine ⟨hreg (.inl rfl), hreg (.inr (.inl rfl)), ?_⟩
    unfold ownerFilter
    split
    next hrefl => exact hreg (.inr (.inr ⟨hrefl, rfl⟩))
    · exact hreg (.inl rfl)

lemma accountsAll_relationship_arguments (hre : cat.Reaches owner fd rel) (hq : rel.isQueried cat)
    (h : cat.AccountsAll decl fd.arguments) : cat.AccountsAll decl
      (rel.arguments (cat.naming owner fd.name) (fd.describe cat.types)) := by
  have hin := accounts_relationship_inputs hs hno hf hre hq
  unfold Relationship.arguments
  rw [describe_field]
  refine accountsAll_queryArguments h ?_ ?_
  · intro given hg name
    rw [← some.inj hg]
    exact (hin decl name).2.1
  · intro given hg name
    rw [← some.inj hg]
    exact (hin decl name).1

/-! ## Fields that return nodes -/

/-- What a field gains is accounted for. -/
lemma accountsField_fieldGain (h : cat.AccountsField decl isInput fd) :
    cat.AccountsField decl isInput (fieldGain cat owner fd).field := by
  rcases fieldGain_field_cases cat owner fd with heq | ⟨-, -, heq⟩ | ⟨rel, hre, hq, heq⟩
  · rwa [heq]
  · rw [heq]
    exact ⟨accountsAll_nodeFieldArguments hs h.arguments, h.type⟩
  · rw [heq]
    have hreg {defn : TypeDef} (h : defn ∈ rel.queryDefs cat owner (fd.describe cat.types))
        (name : Name) : cat.Accounts decl (name, defn.name) :=
      accounts_of_registers hs (registers_of_reaches hno hf hre h) name
    unfold retype
    split
    next hrefl =>
      refine ⟨accountsAll_nil, fun _ => ?_⟩
      have hdi := hreg (mem_queryDefs.mpr ⟨hq, .inr (.inl ⟨hrefl, rfl⟩)⟩)
      rw [describe_name] at hdi
      exact hdi _
    · refine ⟨accountsAll_relationship_arguments hs hno hf hre hq h.arguments, fun _ => ?_⟩
      have hou := hreg (mem_queryDefs.mpr ⟨hq, .inl rfl⟩)
      simpa [outputType] using hou _

lemma accountsAll_filters_fieldGain : cat.AccountsAll decl (fieldGain cat owner fd).filters := by
  have h := givesFilters_fieldGain cat owner fd
  generalize (fieldGain cat owner fd).filters = filters at h
  cases h with
  | property hst =>
    have hk : (fd.describe cat.types).kind = .property := by simp_all [isStored]
    exact accountsAll_propertyFilters
      (accounts_property hk (mem_memberTypes (mem_nodes.mp hno).1 hf))
  | relation _ _ _ haug => exact accountsAll_relationFilters (accounts_of_provides hs .filter haug)
  | relationship hre hq =>
    exact accountsAll_relationFilters fun name =>
      (accounts_relationship_inputs hs hno hf hre hq decl name).2.2
  | nothing => exact accountsAll_nil

end

/-! ## Generated types -/

/-- The members whose arguments pass into generated types: properties of relationship types, which
stand in output and payload types, and fields that lead to a relationship, whose arguments stand at
each direction of a reflexive one. -/
def carried (cat : Catalog) : List FieldDef :=
  cat.types.values.flatMap fun owner => (cat.membersOf owner).filter fun field =>
    owner.classification = some .relationship || (field.describe cat.types).kind = .relationship

def carriedValues (cat : Catalog) : List (Name × Name) :=
  cat.carried.flatMap (FieldDef.inputValues false)

omit hs in
lemma accountsAll_of_mem_carried (h : fd ∈ cat.carried) :
    cat.AccountsAll cat.carriedValues fd.arguments := fun _ harg =>
  .declared (mem_flatMap.mpr ⟨fd, h, mem_map_of_mem harg⟩)

omit hs in
lemma mem_carried_of_reaches (hno : owner ∈ cat.nodes) (hf : fd ∈ cat.membersOf owner)
    (h : cat.Reaches owner fd rel) : fd ∈ cat.carried :=
  mem_flatMap.mpr ⟨owner, (mem_nodes.mp hno).1, mem_filter.mpr ⟨hf, by simp [h.kind]⟩⟩

def HasProperties (cat : Catalog) (rel : Relationship) : Prop :=
  ∀ info ∈ rel.properties, ∃ field ∈ cat.carried, info = field.describe cat.types ∧
    info.kind = .property

lemma hasProperties_of_reaches (h : cat.Reaches owner fd rel) : cat.HasProperties rel := by
  obtain ⟨desc, ends, hg, -, rfl⟩ := reached?_eq_some.mp h.reached
  have hn : desc.name = fd.type.base := hs.nameOfType _ (mem_of_get? hg)
  intro info hin
  obtain ⟨hmem, hpr⟩ := mem_filter.mp hin
  simp only [isRelationshipProperty, Bool.and_eq_true, decide_eq_true_eq] at hpr
  rw [fieldInfos_eq (hn ▸ hg)] at hmem
  obtain ⟨m, hm, rfl⟩ := mem_map.mp hmem
  refine ⟨m, mem_flatMap.mpr ⟨desc, ?_, mem_filter.mpr ⟨hm, ?_⟩⟩, rfl, hpr.1.1⟩
  · exact mem_map_of_mem (mem_of_get? hg)
  · have hcl := bind_classification_of_kind.2 h.kind
    rw [hg, bind_some] at hcl
    simp [hcl]

lemma hasProperties_of_relates (h : cat.Relates owner fd rel) : cat.HasProperties rel := by
  cases h with
  | reached hobj h => exact hasProperties_of_reaches hs h
  | relation => exact fun info hin => by cases hin

omit hs in
lemma accounts_of_hasProperties (h : cat.HasProperties rel) (hin : info ∈ rel.properties)
    (name : Name) : cat.Accounts decl (name, info.type) := by
  obtain ⟨fd, hf, rfl, hk⟩ := h info hin
  obtain ⟨owner, ho, hm⟩ := mem_flatMap.mp hf
  exact accounts_property hk (mem_memberTypes ho (mem_of_mem_filter hm)) name

omit hs in
lemma accountsAll_of_hasProperties (h : cat.HasProperties rel) (hin : info ∈ rel.properties) :
    cat.AccountsAll cat.carriedValues info.field.arguments := by
  obtain ⟨fd, hf, rfl, -⟩ := h info hin
  rw [describe_field]
  exact accountsAll_of_mem_carried hf

lemma accountsAll_relationship_filters (hpr : cat.HasProperties rel) (hq : rel.isQueried cat)
    (naming : Name) : cat.AccountsAll decl (rel.inputs cat.settings naming).filters := by
  have hrel : cat.augments .query rel.relatedType := by
    simp only [isQueried, Bool.and_eq_true] at hq
    unfold relatedType
    split
    · exact hq.1
    · exact hq.2
  rw [inputs_eq]
  refine append (fun arg harg => ?_) fun arg harg => ?_
  · obtain ⟨info, hin, harg⟩ := mem_flatMap.mp harg
    unfold storedFilters at harg
    split at harg
    · exact accountsAll_propertyFilters (accounts_of_hasProperties hpr hin) arg harg
    · simp at harg
  · rw [mem_singleton.mp harg]
    exact accounts_of_provides hs .filter hrel _

lemma accountsBody_of_mem_queryDefs (hno : owner ∈ cat.nodes) (hf : fd ∈ cat.membersOf owner)
    (hre : cat.Reaches owner fd rel) (h : defn ∈ rel.queryDefs cat owner (fd.describe cat.types)) :
    cat.AccountsBody (fun _ => cat.carriedValues) defn.body := by
  have hpr := hasProperties_of_reaches hs hre
  obtain ⟨hq, h⟩ := mem_queryDefs.mp h
  rw [describe_name] at h
  have hin := accounts_relationship_inputs hs hno hf hre hq
  rcases h with rfl | ⟨-, rfl⟩ | ⟨-, rfl | rfl | ⟨hrefl, rfl⟩⟩
  · refine accountsBody_of_arguments rfl fun m hm => ?_
    rcases mem_append.mp hm with hm | hm
    · obtain ⟨info, hif, rfl⟩ := mem_map.mp hm
      exact accountsAll_of_hasProperties hpr hif
    · rcases mem_pair.mp hm with rfl | rfl <;> exact accountsAll_nil
  · have har := accountsAll_relationship_arguments hs hno hf hre hq
      (accountsAll_of_mem_carried (mem_carried_of_reaches hno hf hre))
    refine accountsBody_of_arguments rfl fun m hm => ?_
    rcases mem_pair.mp hm with rfl | rfl <;> exact har
  · refine accountsBody_inputType fun _ => (append (accountsAll_logicalFilters fun name => ?_)
      (accountsAll_relationship_filters hs hpr hq _))
    rw [(relationship_inputs_names ..).1]
    exact (hin _ name).1
  · exact fun fd hf => by cases hf
  · -- between nodes of one type, each direction is filtered by the filter of the relationship
    refine accountsBody_inputType fun vals arg harg => ?_
    have hfi (name : Name) : cat.Accounts vals (name, filterName rel.typeName) := by
      simpa [Relationship.filterName, hrefl] using (hin vals name).1
    rcases mem_pair.mp harg with rfl | rfl <;> exact hfi _

lemma accountsBody_of_mem_mutationDefs (hrel : cat.Relates owner fd rel)
    (h : defn ∈ rel.mutationDefs cat) :
    cat.AccountsBody (fun _ => cat.carriedValues) defn.body := by
  have hpr := hasProperties_of_relates hs hrel
  obtain ⟨-, ⟨-, rfl⟩ | ⟨action, -, rfl⟩⟩ := mem_mutationDefs.mp h
  · refine accountsBody_inputType fun _ arg harg => ?_
    obtain ⟨info, hin, rfl⟩ := mem_map.mp harg
    simpa using accounts_of_hasProperties hpr (mem_of_mem_filter hin) info.name
  · refine accountsBody_of_arguments rfl fun m hm => ?_
    rcases mem_append.mp hm with hm | hm
    · rcases mem_pair.mp hm with rfl | rfl <;> exact accountsAll_nil
    · split at hm
      · obtain ⟨info, hin, rfl⟩ := mem_map.mp hm
        unfold payloadField
        split
        · exact accountsAll_nil
        · exact accountsAll_of_hasProperties hpr hin
      · simp at hm

omit hs in
lemma accountsAll_createArguments (type : Name) (key : Option PrimaryKey) :
    cat.AccountsAll decl (createArguments (cat.fieldInfos type) key) := by
  refine forall_mem_map.mpr fun info hin => ?_
  obtain ⟨hm, hst⟩ := mem_filter.mp hin
  have hb : (createType key info).base = info.type := by
    simp only [createType]
    split <;> split
    · rfl
    · exact Wrappers.base_wrap _ _
    · rfl
    · exact Wrappers.base_wrap _ _
  rw [hb]
  exact accounts_of_isStored hm hst _

omit hs in
lemma accounts_optionalArgument (h : info ∈ cat.fieldInfos type) (hst : info.isStored) :
    cat.Accounts decl ((optionalArgument info).name, (optionalArgument info).type.base) := by
  simpa [optionalArgument] using accounts_of_isStored h hst info.name

omit hs in
lemma accountsBody_of_mem_inputMutations
      (h : defn ∈ (inputMutations cat.settings owner.name (cat.fieldInfos owner.name)
      (primaryKey (cat.fieldInfos owner.name))).types)
    (hsl : ∀ {vals : List (Name × Name)} (name : Name), cat.Accounts vals (name, defn.name)) :
    cat.AccountsBody (fun _ => cat.carriedValues) defn.body := by
  rcases mem_types_inputMutations.mp h with ⟨-, rfl⟩ | ⟨-, rfl | rfl | ⟨-, rfl⟩⟩
  · exact accountsBody_inputType fun _ => (accountsAll_createArguments _ _)
  · refine accountsBody_inputType fun _ =>
    (append (accountsAll_logicalFilters hsl) fun arg harg => ?_)
    obtain ⟨info, hin, harg⟩ := mem_flatMap.mp harg
    obtain ⟨hm, hst⟩ := mem_of_mem_uniqueKeyFields hin
    exact accountsAll_propertyFilters (accounts_of_isStored hm hst) arg harg
  · refine accountsBody_inputType fun _ arg harg => ?_
    obtain ⟨info, hin, rfl⟩ := mem_map.mp harg
    obtain ⟨hm, hst⟩ := mem_of_mem_uniqueKeyFields hin
    exact accounts_of_isStored hm hst _
  · refine accountsBody_inputType fun _ arg harg => ?_
    obtain ⟨info, hin, rfl⟩ := mem_map.mp harg
    obtain ⟨hm, hst⟩ := mem_filter.mp hin
    rw [Bool.and_eq_true] at hst
    exact accounts_optionalArgument hm hst.1

/-- A generated type asks only for values that are accounted for. -/
lemma accountsBody_of_registers (h : cat.Registers defn) :
    cat.AccountsBody (fun _ => cat.carriedValues) defn.body := by
  cases h with
  | field hno hf h =>
    rcases mem_fieldTypes.mp h with ⟨rel, hre, h⟩ | ⟨rel, hrel, h⟩
    · exact accountsBody_of_mem_queryDefs hs hno hf hre h
    · exact accountsBody_of_mem_mutationDefs hs hrel h
  | @selection owner key hno hobj haug hk =>
    refine accountsBody_inputType fun _ arg harg => ?_
    obtain ⟨hm, hst⟩ := mem_of_mem_keyFields (mem_keyFields_of_primaryKey hk)
    rw [mem_singleton.mp harg]
    simpa [requiredArgument, PrimaryKey.type] using accounts_of_isStored hm hst key.name
  | @input owner defn hno hobj haug hexp h =>
    exact accountsBody_of_mem_inputMutations h fun name =>
      accounts_of_registers hs (.input hno hobj haug hexp h) name
  | @filter owner hno haug =>
    refine accountsBody_inputType fun vals => append (accountsAll_logicalFilters fun name => ?_) ?_
    · rw [(nodeInputs_names cat owner).1]
      exact accounts_of_provides hs .filter haug name
    · rw [nodeInputs_eq]
      intro arg harg
      obtain ⟨fd, hf, harg⟩ := mem_flatMap.mp harg
      exact accountsAll_filters_fieldGain hs hno hf arg harg
  | @ordering owner hno haug hord =>
    exact fun fd hf => by cases hf

omit hs in
lemma accountsBody_of_isFixed (h : cat.IsFixed defn) :
    cat.AccountsBody (fun _ => cat.carriedValues) defn.body := by
  obtain ⟨kind, ms, hms, rfl | rfl⟩ | ⟨hpo, rfl⟩ | rfl := isFixed_cases h
  · refine accountsBody_of_arguments rfl fun fd hf => ?_
    obtain ⟨m, -, rfl⟩ := mem_map.mp hf
    exact fun arg h => by cases h
  · exact accountsBody_inputType fun _ m hm => accounts_builtin (hms m hm) _
  · refine accountsBody_inputType fun _ m hm => ?_
    rcases mem_pair.mp hm with rfl | rfl
    · -- distances are measured from a point, whose input type comes with the comparison
      refine .known (.inr (mem_keys_generated_of_stored ⟨_, mem_append_right _ (mem_flatMap.mpr
        ⟨.point, hpo, mem_append_left _ (mem_cons_of_mem _ mem_cons_self)⟩), ?_⟩))
      simp [inputType]
    · exact accounts_builtin (by decide) _
  · exact accountsBody_of_arguments rfl fun fd hf => by cases hf

/-! ## Offered fields -/

omit hs in
lemma accountsAll_required {name : Name} {rest : List ArgumentDef}
    (h : cat.Accounts decl (name, type))
    (hr : cat.AccountsAll decl rest) :
    cat.AccountsAll decl (requiredArgument name type :: rest) := by
  intro arg harg
  rcases mem_cons.mp harg with rfl | harg
  · simpa [requiredArgument] using h
  · exact hr arg harg

omit hs in
lemma accountsAll_flatMutations
    (h : fd ∈ flatMutations cat.settings type (cat.fieldInfos type)
      (primaryKey (cat.fieldInfos type))) : cat.AccountsAll decl fd.arguments := by
  have hcr : cat.AccountsAll decl _ :=
    accountsAll_createArguments type (primaryKey (cat.fieldInfos type))
  cases hk : primaryKey (cat.fieldInfos type) with
  | none =>
    rw [hk] at h hcr
    rwa [mem_singleton.mp h]
  | some key =>
    rw [hk] at h hcr
    obtain ⟨hm, hst⟩ := mem_of_mem_keyFields (mem_keyFields_of_primaryKey hk)
    have hka : cat.Accounts decl (key.name, key.info.type) := accounts_of_isStored hm hst key.name
    have hup : cat.AccountsAll decl (updateArguments (cat.fieldInfos type) key) := by
      refine accountsAll_required hka fun arg harg => ?_
      obtain ⟨info, hin, rfl⟩ := mem_map.mp harg
      obtain ⟨hm, hst⟩ := mem_filter.mp hin
      rw [Bool.and_eq_true] at hst
      exact accounts_optionalArgument hm hst.1
    simp only [flatMutations, mem_append, mem_cons, not_mem_nil, or_false] at h
    rcases h with (rfl | h) | rfl | rfl
    · exact hcr
    · split at h
      · rwa [mem_singleton.mp h]
      · simp at h
    · exact accountsAll_required hka accountsAll_nil
    · exact hup

lemma accountsAll_inputMutations (hno : owner ∈ cat.nodes) (hobj : owner.isObject)
    (haug : cat.augments .mutation owner.name) (hexp : cat.settings.experimental)
    (h : fd ∈ (inputMutations cat.settings owner.name (cat.fieldInfos owner.name)
      (primaryKey (cat.fieldInfos owner.name))).fields) : cat.AccountsAll decl fd.arguments := by
  have hio : cat.isObject owner.name := by simpa [isObject, get?_of_mem_nodes hs hno] using hobj
  have hcr (hne : (createArguments (cat.fieldInfos owner.name)
      (primaryKey (cat.fieldInfos owner.name))).isEmpty = false) (name : Name) :
      cat.Accounts decl (name, createName owner.name) :=
    accounts_of_provides hs .create (by simp [provides, hexp, haug, hio, hne]) name
  cases hk : primaryKey (cat.fieldInfos owner.name) with
  | none =>
    rw [hk] at h hcr
    simp only [inputMutations, isNone_none, Bool.true_or, if_true, mem_ite_nil_left,
      mem_singleton] at h
    obtain ⟨hne, rfl⟩ := h
    exact accountsAll_required (hcr (by simpa using hne) _) accountsAll_nil
  | some key =>
    have hmu : cat.canMutate owner.name := by simp [canMutate, haug, hio, hk]
    have hco (name : Name) : cat.Accounts decl (name, whereName owner.name) :=
      accounts_of_provides hs .condition (by simp [provides, hexp, hmu]) name
    have hks (name : Name) : cat.Accounts decl (name, keysName owner.name) :=
      accounts_of_provides hs .keys (by simp [provides, hexp, hmu]) name
    have hup (hne : (updateMembers (cat.fieldInfos owner.name)
        (uniqueKeyFields (cat.fieldInfos owner.name)
        (some key))).isEmpty = false) (name : Name) : cat.Accounts decl (name,
        updateName owner.name) :=
      accounts_of_provides hs .update (by simp [provides, hexp, hmu, hk, hne]) name
    rw [hk] at h hcr
    simp only [inputMutations, isNone_some, uniqueKeyFields_isEmpty, Bool.or_false,
      Bool.false_eq_true, if_false,
      mem_append, mem_ite_nil_left, mem_cons, not_mem_nil, or_false] at h
    rcases h with ((⟨hne, rfl⟩ | ⟨hne, rfl⟩) | rfl) | ⟨hne, rfl⟩
    · exact accountsAll_required (hcr (by simpa using hne) _) accountsAll_nil
    · rw [Bool.not_eq_true] at hne
      exact accountsAll_required (hco _) (accountsAll_required (hup hne _) accountsAll_nil)
    · exact accountsAll_required (hco _) accountsAll_nil
    · exact accountsAll_required (hks _)
        (accountsAll_required (hcr (by simpa using hne) _) accountsAll_nil)

lemma accountsAll_mutations {m : FieldDef} (hno : owner ∈ cat.nodes)
    (hm : m ∈ cat.membersOf owner) (hrel : cat.Relates owner m rel)
    (h : fd ∈ rel.mutations cat) : cat.AccountsAll decl fd.arguments := by
  unfold mutations at h
  split at h
  next hmut =>
    have hen := hmut
    simp only [isMutable, Bool.and_eq_true] at hen
    have hend {type : Name} (hmu : cat.canMutate type) (name : Name) : cat.Accounts decl
        (name, (if cat.settings.experimental then whereName else selectionName) type) := by
      cases hexp : cat.settings.experimental with
      | false => exact accounts_of_provides hs .selection hmu name
      | true => exact accounts_of_provides hs .condition (by simp [provides, hexp, hmu]) name
    obtain ⟨action, -, rfl⟩ := mem_map.mp h
    refine accountsAll_required (hend hen.1 _) (accountsAll_required (hend hen.2 _) ?_)
    split
    next hda =>
      simp only [Bool.and_eq_true, Bool.not_eq_true', isEmpty_eq_false_iff] at hda
      have hreg : cat.Registers rel.propertyInput :=
          .field hno hm (mem_fieldTypes.mpr (.inr ⟨rel, hrel,
          mem_mutationDefs.mpr ⟨hmut, .inl ⟨hda.2, rfl⟩⟩⟩))
      exact accountsAll_required (accounts_of_registers hs hreg _) accountsAll_nil
    · exact accountsAll_nil
  · simp at h

omit hs in
lemma type_of_mem_nodeMutations (h : fd ∈ cat.nodeMutations type) : fd.type = .plain type := by
  obtain ⟨action, rfl⟩ := exists_of_mem_nodeMutations h
  rfl

/-- Fields that are offered are accounted for. -/
lemma accountsField_of_offers {kind : OperationKind} (h : cat.Offers kind fd) (isInput : Bool) :
    cat.AccountsField decl isInput fd := by
  have hkn {owner : TypeDef} (hno : owner ∈ cat.nodes) (name : Name) :
      cat.Accounts decl (name, owner.name) :=
    .known (.inl (mem_keys_of_get? (get?_of_mem_nodes hs hno)))
  cases h with
  | @query owner hno haug =>
    refine ⟨?_, fun _ => by simpa [nodeQueryField] using hkn hno _⟩
    simp only [nodeQueryField]
    refine accountsAll_queryArguments ?_ ?_ ?_
    · refine forall_mem_map.mpr fun info hin => ?_
      obtain ⟨hmem, hst⟩ := mem_filter.mp hin
      simpa using accounts_of_isStored hmem hst info.name
    · exact fun given => accounts_ordering? hs haug
    · intro given hg name
      rw [← some.inj hg]
      exact accounts_of_provides hs .filter haug name
  | @mutation owner fd hno hobj haug h =>
    refine ⟨?_, fun _ => ?_⟩
    · unfold nodeMutations at h
      split at h
      next hexp => exact accountsAll_inputMutations hs hno hobj haug hexp h
      · exact accountsAll_flatMutations h
    · rw [type_of_mem_nodeMutations h]
      exact hkn hno _
  | relationship hno hobj hig hm h =>
    obtain ⟨rel, hrel, h⟩ := mem_fieldGain_mutations hobj h
    refine ⟨accountsAll_mutations hs hno hm hrel h, fun _ => ?_⟩
    unfold mutations at h
    split at h
    next hmut =>
      obtain ⟨action, hac, rfl⟩ := mem_map.mp h
      have hreg : cat.Registers (rel.payloadType action) :=
          .field hno hm (mem_fieldTypes.mpr (.inr ⟨rel, hrel,
          mem_mutationDefs.mpr ⟨hmut, .inr ⟨action, hac, rfl⟩⟩⟩))
      exact accounts_of_registers hs hreg _
    · simp at h

lemma accountsField_rootField {owner : Name} (h : cat.AccountsField decl isInput fd) :
    cat.AccountsField decl isInput (rootField cat owner fd) := by
  unfold rootField
  dsimp only
  split
  · exact ⟨accountsAll_nodeFieldArguments hs h.arguments, h.type⟩
  · exact h

end Generated

section Declared

variable {cfg : Settings} {doc : Document} {cat : Catalog} {decl : List (Name × Name)}
  (hcat : (ofDocument cfg doc).outcome = .ok cat)
include hcat

lemma mem_typeDefs_of_mem_values (h : defn ∈ cat.types.values) : defn ∈ doc.typeDefs := by
  rw [ofDocument_eq hcat] at h
  obtain ⟨e, he, rfl⟩ := mem_map.mp h
  exact (mem_sorted_types cfg (mem_of_mem_filter he)).2

lemma mem_typeExts_of_mem_extensionsOf (h : extn ∈ cat.extensionsOf type) :
    extn ∈ doc.typeExts := by
  rw [extensionsOf_eq hcat] at h
  exact mem_of_mem_filter h

lemma declared_of_mem_roots (h : root ∈ cat.roots) :
    (root.2.definition ∈ doc.typeDefs ∧ root.2.fields = root.2.definition.fields) ∨
      (root.2.definition.body = .object [] [] ∧ root.2.fields = [] ∧ root.2.generated) := by
  rw [ofDocument_eq hcat] at h
  obtain ⟨⟨kind, name, decl⟩, he, h⟩ := mem_flatMap.mp h
  cases decl with
  | some defn =>
    rw [mem_singleton.mp h]
    have hg := get?_of_takeRoots (of_mem_zip he).2
    exact .inl ⟨(mem_sorted_types cfg (mem_of_get? hg)).2, rfl⟩
  | none =>
    unfold rootsOf at h
    dsimp only at h
    split at h
    · rw [mem_singleton.mp h]
      exact .inr ⟨rfl, rfl, rfl⟩
    · simp at h

/-! ## The whole document -/

omit hcat in
lemma accountsField_gain (hs : cat.IsSorted) {decl : List (Name × Name)} {owner : Name}
    (hm : ∀ defn, cat.types.get? owner = some defn → fd ∈ cat.membersOf defn)
    (h : cat.AccountsField decl isInput fd) :
    cat.AccountsField decl isInput (cat.gain owner fd) := by
  unfold gain
  split
  next defn hd =>
    obtain ⟨hg, hno⟩ := filter_eq_some_iff.mp hd
    exact accountsField_fieldGain hs (mem_nodes_of_get? hg hno) (hm defn hg) h
  · split
    · exact accountsField_rootField hs h
    · exact h

lemma accountsField_augmentedType (h : defn ∈ cat.types.values) (isInput : Bool)
    (hf : fd ∈ (augmentedType cat defn).fields) :
    cat.AccountsField (valuesOf defn.fields isInput fd.name) isInput fd := by
  have hs := isSorted_of_ok hcat
  rw [augmentedType_eq hs h] at hf
  rcases mem_append.mp (mem_of_mem_withFields hf) with hf | hf
  · obtain ⟨m, hm, rfl⟩ := mem_map.mp hf
    rw [(gainsField_gain ..).name]
    refine accountsField_gain hs (fun owner hg => ?_) (accountsField_self cat _ hm)
    rw [get?_of_mem_values hs h] at hg
    exact some.inj hg ▸ mem_append_left _ hm
  · split at hf
    · rw [mem_addedFields hf]
      exact ⟨fun arg h => by simp [systemIdField] at h, fun _ => accounts_builtin (by decide) _⟩
    · simp at hf

lemma accountsField_augmentedExt (h : extn ∈ cat.extensions.flatMap (·.2)) (isInput : Bool)
    (hf : fd ∈ (cat.augmentedExt extn).fields) :
    cat.AccountsField (valuesOf extn.fields isInput fd.name) isInput fd := by
  have hs := isSorted_of_ok hcat
  rw [augmentedExt_eq] at hf
  obtain ⟨m, hm, rfl⟩ := mem_map.mp (mem_of_mem_withFields hf)
  rw [(gainsField_gain ..).name]
  refine accountsField_gain hs (fun owner hg => mem_append_right _ ?_) (accountsField_self cat _ hm)
  have hn : owner.name = extn.name := hs.nameOfType _ (mem_of_get? hg)
  exact mem_flatMap.mpr ⟨extn, (mem_extensionsOf hs).mpr ⟨h, hn.symm⟩, hm⟩

lemma accountsField_root (h : root ∈ cat.progress.roots) :
    ∃ pre ∈ cat.roots, root.2.definition = pre.2.definition ∧ ∀ (isInput : Bool),
      ∀ fd ∈ root.2.build.fields,
      cat.AccountsField (valuesOf pre.2.fields isInput fd.name) isInput fd := by
  have hs := isSorted_of_ok hcat
  obtain ⟨pre, hb, added, hcom⟩ := exists_completes h
  refine ⟨pre, hb, hcom.definition, fun isInput fd hf => ?_⟩
  have hmem := mem_of_mem_withFields hf
  rw [hcom.fields] at hmem
  rcases mem_append.mp hmem with hmem | hmem
  · obtain ⟨m, hm, rfl⟩ := mem_map.mp hmem
    rw [(gainsField_rootField ..).name]
    exact accountsField_rootField hs (accountsField_self cat _ hm)
  · exact accountsField_of_offers hs (offers_of_mem_effects (hcom.offered fd hmem)) _

/-- The values of an augmented type were declared in it, or are accounted for. -/
lemma accountsBody_augmentedType (h : defn ∈ cat.types.values) :
    cat.AccountsBody (valuesOf defn.fields defn.body.isInput) (augmentedType cat defn).body := by
  have hin : (augmentedType cat defn).body.isInput = defn.body.isInput := by
    rw [augmentedType_eq (isSorted_of_ok hcat) h]
    exact isInput_withFields ..
  intro fd hf
  rw [hin]
  exact accountsField_augmentedType hcat h _ hf

lemma accountsBody_augmentedExt (h : extn ∈ cat.extensions.flatMap (·.2)) :
    cat.AccountsBody (valuesOf extn.fields extn.body.isInput) (cat.augmentedExt extn).body := by
  have hin : (cat.augmentedExt extn).body.isInput = extn.body.isInput := by
    rw [augmentedExt_eq]
    exact isInput_withFields ..
  intro fd hf
  rw [hin]
  exact accountsField_augmentedExt hcat h _ hf

lemma accountsBody_root (h : root ∈ cat.progress.roots) :
    ∃ pre ∈ cat.roots, pre.2.definition.name = root.2.definition.name ∧
    cat.AccountsBody (valuesOf pre.2.fields pre.2.definition.body.isInput) root.2.build.body := by
  obtain ⟨pre, hb, hd, hfs⟩ := accountsField_root hcat h
  have hin : root.2.build.body.isInput = pre.2.definition.body.isInput := by
    rw [← hd]
    exact isInput_withFields ..
  refine ⟨pre, hb, by rw [hd], fun fd hf => ?_⟩
  rw [hin]
  exact hfs _ fd hf

omit hcat in
/-- A place for a value was there before, or is accounted for. -/
lemma accounts_or_mem_inputSites {body after : TypeBody} {holder : Name}
    (hb : cat.AccountsBody (valuesOf body.fields body.isInput) after)
    (hsi : site ∈ (after.retarget cat.settings).inputSites holder) :
    cat.Accounts [] (site.value, site.type) ∨ site ∈ body.inputSites holder := by
  obtain ⟨rfl, hac⟩ := hb.retarget.of_mem_inputSites hsi
  exact hac.mem_or.symm.imp_right mem_inputSites_of_valuesOf

/-- Where the input values of an augmented document come from: the document declares them in the
same place, a generated type takes them over from a declared member, or their types are accounted
for. -/
theorem accounts_of_mem_inputSites {aug : Document} (h : cat.augment.outcome = .ok aug)
    (hsi : site ∈ aug.inputSites) : cat.Accounts [] (site.value, site.type) ∨ site ∈ doc.inputSites ∨
      (site.holder ∈ cat.generated.keys ∧ (site.value, site.type) ∈ cat.carriedValues) := by
  have hs := isSorted_of_ok hcat
  have hde {defn : TypeDef} (hdef : defn ∈ doc.typeDefs)
      (h : site ∈ defn.body.inputSites defn.name) : site ∈ doc.inputSites :=
    mem_append_left _ (mem_flatMap.mpr ⟨defn, hdef, h⟩)
  obtain ⟨dirs, -, rfl⟩ := augment_eq hs h
  rcases mem_append.mp hsi with hsi | hsi
  · obtain ⟨defn, hdef, hsi⟩ := mem_flatMap.mp hsi
    rw [Parts.typeDefs_document _ hs.others] at hdef
    rcases mem_append.mp hdef with hdef | hsc
    · obtain ⟨pre, hb, rfl⟩ := mem_map.mp hdef
      simp only [parts, mem_append, List.mem_map] at hb
      rcases hb with (⟨decl, hd, rfl⟩ | ⟨root, hr, rfl⟩) | hgen
      · refine (accounts_or_mem_inputSites (accountsBody_augmentedType hcat hd) hsi).imp_right fun hsi => .inl ?_
        refine hde (mem_typeDefs_of_mem_values hcat hd) ?_
        simpa [TypeDef.retarget] using hsi
      · obtain ⟨pre, hb, hn, hbd⟩ := accountsBody_root hcat (mem_of_mem_filter hr)
        rcases declared_of_mem_roots hcat hb with ⟨hd, hfs⟩ | ⟨-, hfs, -⟩
        · rw [hfs] at hbd
          refine (accounts_or_mem_inputSites hbd hsi).imp_right fun hsi => .inl (hde hd ?_)
          rwa [hn]
        · -- an operation type that is not declared has generated members only
          rw [hfs] at hbd
          exact .inl ((hbd.retarget.of_mem_inputSites hsi).2.mem_or.resolve_left (by simp [valuesOf]))
      · -- a generated type is registered by a step, or is there for every document
        obtain ⟨e, he, rfl⟩ := mem_map.mp (mem_keptTypes.mp hgen).1
        obtain ⟨hn, hsrc⟩ := mem_generated hs he
        have hbd : cat.AccountsBody (fun _ => cat.carriedValues) e.2.body := by
          rcases hsrc with hreg | hfi
          · exact accountsBody_of_registers hs hreg
          · exact accountsBody_of_isFixed hfi
        obtain ⟨hho, hac⟩ := hbd.retarget.of_mem_inputSites hsi
        have hk : site.holder ∈ cat.generated.keys := by
          rw [hho]
          exact mem_map.mpr ⟨e, he, hn⟩
        exact hac.mem_or.symm.imp_right fun hca => .inr ⟨hk, hca⟩
    · obtain ⟨kind, -, rfl⟩ := mem_map.mp hsc
      cases hsi
  · obtain ⟨extn, hx, hsi⟩ := mem_flatMap.mp hsi
    rw [Parts.typeExts_document _ hs.others] at hx
    obtain ⟨pre, hb, rfl⟩ := mem_map.mp hx
    obtain ⟨e, he, hb⟩ := mem_flatMap.mp hb
    obtain ⟨decl, hd, rfl⟩ := mem_map.mp hb
    have hm := mem_flatMap.mpr ⟨e, he, hd⟩
    refine (accounts_or_mem_inputSites (accountsBody_augmentedExt hcat hm) hsi).imp_right fun hsi => .inl ?_
    refine mem_append_right _ (mem_flatMap.mpr ⟨decl, ?_, ?_⟩)
    · exact mem_typeExts_of_mem_extensionsOf hcat ((mem_extensionsOf hs).mpr ⟨hm, rfl⟩)
    · simpa [TypeExt.retarget] using hsi

end Declared

end GraphApi.Catalog
