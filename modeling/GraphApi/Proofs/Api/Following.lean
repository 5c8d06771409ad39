import GraphApi.Proofs.Api.PlainCatalogs

/-!
# The catalog of an augmented document

A catalog follows another if it holds the same types, extensions and operation types in their
augmented form, and besides them only types that stand for nothing in the graph. Without
relationships, members are then described alike (`Follows.describe_settledField`) and have all their
arguments (`Follows.rootField_settledField`).
-/

namespace GraphApi

open List FieldInfo NameMap

/-- Retargeting an argument does not change its name. -/
lemma argumentNamed_retarget (cfg : Settings) (args : List ArgumentDef) (name : Name) :
    argumentNamed? (args.map (·.retarget cfg)) name = (argumentNamed? args name).map
      (·.retarget cfg) := by
  unfold argumentNamed?
  rw [find?_map]
  rfl

/-- Arguments stay set if the names of the ordering and the filter are not retargeted. -/
lemma HasQueryArguments.retarget {cfg : Settings} {args : List ArgumentDef} {isList : Bool}
    {ordering filter : Option Name} (h : HasQueryArguments isList ordering filter args)
    (hord : ∀ given, ordering = some given → enabledKind? cfg given = none)
    (hfi : ∀ given, filter = some given → enabledKind? cfg given = none) :
    HasQueryArguments isList ordering filter (args.map (·.retarget cfg)) where
  page := by
    intro hl bound hbo
    obtain ⟨arg, harg, hn⟩ := mem_map.mp (h.page hl bound hbo)
    exact mem_map.mpr ⟨arg.retarget cfg, mem_map_of_mem harg, hn⟩
  ordering := by
    intro hl given hg hne
    have hb : (orderingArgument given).type.base = given := by simp [orderingArgument]
    have hst := retargetRef_of_disabled (by rw [hb]; exact hord given hg) storedInputName
    rw [argumentNamed_retarget, h.ordering hl given hg hne, Option.map_some]
    simp only [ArgumentDef.retarget, hst]
  filter := by
    intro given hg hne
    have hb : (filterArgument given).type.base = given := rfl
    have hst := retargetRef_of_disabled (by rw [hb]; exact hfi given hg) storedInputName
    rw [argumentNamed_retarget, h.filter given hg hne, Option.map_some]
    simp only [ArgumentDef.retarget, hst]

namespace Catalog

/-- A member as it is in the augmented document, of an operation type or of a node type without
relationships. -/
def settledField (cat : Catalog) (owner : Name) (kind : TypeKind) (field : FieldDef) : FieldDef :=
  (rootField cat owner field).retargetIn cat.settings kind

/-- A type as it is in the augmented document. -/
def settledType (cat : Catalog) (defn : TypeDef) : TypeDef :=
  (augmentedType cat defn).retarget cat.settings

/-- An extension as it is in the augmented document. -/
def settledExt (cat : Catalog) (extn : TypeExt) : TypeExt :=
  (cat.augmentedExt extn).retarget cat.settings

/-- A catalog holds what another becomes by its augmentation. -/
structure Follows (first second : Catalog) : Prop where
  settings : second.settings = first.settings
  roots : ∀ kind, (second.root? kind).isSome = (first.root? kind).isSome
  operations : ∀ name, second.operationOf? name = first.operationOf? name
  types : ∀ name defn, first.types.get? name = some defn →
    second.types.get? name = some (first.settledType defn)
  /-- Other types are generated, or scalars for temporal and spatial kinds. -/
  added : ∀ name defn, second.types.get? name = some defn → name ∉ first.types.keys →
    defn.classification = none ∧ (Text.startsWith "_" name ∨ name ∈ kindNames)
  extensions : ∀ name, second.extensionsOf name = (first.extensionsOf name).map first.settledExt

/-! ## Settled members -/

section Members
variable (cat : Catalog) (owner : Name) (kind : TypeKind) (fd : FieldDef)

/-- Only the arguments of a field of an operation type change. -/
lemma rootField_type : (rootField cat owner fd).type = fd.type := by
  unfold rootField
  dsimp only
  split <;> rfl

@[simp] lemma settledField_name : (cat.settledField owner kind fd).name = fd.name := by
  rw [settledField, retargetIn_name, (gainsField_rootField cat owner fd).name]

lemma settledField_directives : (cat.settledField owner kind fd).directives = fd.directives := by
  rw [settledField, directives_retargetIn, (gainsField_rootField cat owner fd).directives]

@[simp] lemma settledField_marked (mark : Mark) :
    (cat.settledField owner kind fd).marked mark = fd.marked mark := by
  simp only [FieldDef.marked, FieldDef.has, settledField_directives]

lemma settledField_isOperation : (cat.settledField owner kind fd).isOperation = fd.isOperation := by
  rw [settledField, isOperation_retargetIn, (gainsField_rootField cat owner fd).isOperation]

lemma settledField_wrappers : (cat.settledField owner kind fd).type.wrappers =
    fd.type.wrappers := by
  rw [settledField, wrappers_retargetIn, rootField_type]

/-- A settled member has its declared type, or the stored form of it. -/
lemma leadsOn_settledField : LeadsOn cat.settings fd.type.base
    (cat.settledField owner kind fd).type.base := by
  have hle := leadsOn_retargetIn cat.settings kind (rootField cat owner fd)
  rwa [rootField_type] at hle

end Members

/-! ## Settled types -/

section Types
variable (cat : Catalog) (defn : TypeDef)

@[simp] lemma settledType_name : (cat.settledType defn).name = defn.name :=
  augmentedType_name cat defn

lemma settledType_directives : (cat.settledType defn).directives = defn.directives :=
  (keepsType_augmentedType cat defn).directives

@[simp] lemma settledType_kind : (cat.settledType defn).body.kind = defn.body.kind := by
  rcases (keepsType_augmentedType cat defn).body with hb | hb
  · exact hb.kind
  · exact hb.kind

lemma settledType_isObject : (cat.settledType defn).isObject = defn.isObject := by
  simp [TypeDef.isObject]

lemma isStructural_eq (body : TypeBody) :
    body.isStructural = (decide (body.kind = .object) || decide (body.kind = .interface)) := by
  cases body <;> rfl

variable {defn}

/-- Without a relationship, a settled type stands for what it stood for. -/
lemma settledType_classification (h : relationDirective defn.directives = none) :
    (cat.settledType defn).classification = defn.classification := by
  have hen := TypeDef.endpoints_of_relation h
  have hset : (cat.settledType defn).endpoints? = none :=
    TypeDef.endpoints_of_relation (by rw [settledType_directives]; exact h)
  simp only [TypeDef.classification, isStructural_eq, settledType_kind, settledType_name, hen, hset]

lemma settledType_isNode (h : relationDirective defn.directives = none) :
    (cat.settledType defn).isNode = defn.isNode := by
  simp only [TypeDef.isNode, settledType_classification cat h]

variable {cat}

/-- A settled node type has its settled members, then the assigned identifier if it is added. -/
lemma fields_settledType (hrl : cat.LacksRelations) (hno : defn.isNode) :
    (cat.settledType defn).fields =
    defn.fields.map (cat.settledField defn.name defn.body.kind) ++ addedFields cat defn := by
  have hadd : (addedFields cat defn).map (·.retargetIn cat.settings defn.body.kind) =
      addedFields cat defn := by
    rcases addedFields_cases cat defn with h | ⟨-, -, h⟩ <;> simp [h, systemIdField_retargetIn]
  rw [settledType, fields_augmentedType hno, hadd]
  simp only [hrl.fieldGain_field]
  rfl

/-- A settled type is ignored if it was: the assigned identifier is not added to an ignored type,
and is not marked itself. -/
lemma settledType_isIgnored (hrl : cat.LacksRelations) (hno : defn.isNode) :
    (cat.settledType defn).isIgnored = defn.isIgnored := by
  have hmk : ((fun fd : FieldDef => fd.marked .ignore) ∘
      cat.settledField defn.name defn.body.kind) = fun fd => fd.marked .ignore :=
    funext fun fd => settledField_marked ..
  have hadd := addedFields_cases cat defn
  unfold TypeDef.isIgnored at hadd ⊢
  rw [fields_settledType hrl hno]
  rcases hadd with hnn | ⟨-, hig, hid⟩
  · rw [hnn, append_nil, isEmpty_map, all_map, hmk]
  · have hun : systemIdField.marked .ignore = false := rfl
    rw [hid, hig, all_append]
    simp [hun]

/-- An extension of a node type or of an operation type has its settled members. -/
lemma fields_settledExt (hs : cat.IsSorted) (hrl : cat.LacksRelations) {extn : TypeExt}
    (ho : (∃ owner ∈ cat.nodes, owner.name = extn.name) ∨
      (cat.types.get? extn.name = none ∧ (cat.operationOf? extn.name).isSome)) :
      (cat.settledExt extn).fields =
      extn.fields.map (cat.settledField extn.name extn.body.kind) := by
  rcases ho with ⟨owner, ho, hn⟩ | ⟨hg, hop⟩
  · have hg := get?_of_mem_nodes hs ho
    rw [hn] at hg
    rw [settledExt, fields_augmentedExt hg (mem_nodes.mp ho).2]
    simp only [hrl.fieldGain_field, hn]
    rfl
  · rw [settledExt, fields_augmentedExt_of_root hg hop]
    rfl

end Types

end Catalog

/-- The category of the values of an enum or a scalar. -/
def TypeKind.category? : TypeKind → Option Category
  | .enum => some .enum
  | .scalar => some .scalar
  | .object | .interface | .union | .input => none

/-- The category of a type: that of a built-in kind, or else that of its definition. -/
lemma categoryOf_eq (types : NameMap TypeDef) (name : Name) : categoryOf types name =
    (builtinCategory? (baseKind name)).or ((types.get? name).bind fun defn =>
      defn.body.kind.category?) := by
  unfold categoryOf
  cases builtinCategory? (baseKind name) with
  | some category => rfl
  | none =>
    cases types.get? name with
    | none => rfl
    | some defn =>
      obtain ⟨description, name, dirs, body⟩ := defn
      cases body <;> rfl

/-- No ordering or filter has the name of a temporal or spatial kind. -/
lemma enabledKind_nodeInput (cfg : Settings) {input : NodeInput} (h : input ≠ .selection)
    (type : Name) : enabledKind? cfg (input.name type) = none := by
  cases hen : enabledKind? cfg (input.name type) with
  | none => rfl
  | some kind => exact absurd (Catalog.selection_of_builtin (builtin_of_enabledKind hen)).1 h

/-- The arguments of a field that leads to nodes are set, and retargeting keeps them so. -/
lemma hasQueryArguments_nodeArguments (cat : Catalog) (cfg : Settings) (info : FieldInfo) :
    HasQueryArguments info.isList (cat.ordering? info.type)
      (if info.isComputed then none else some (filterName info.type))
      ((nodeArguments cat info).map (·.retarget cfg)) := by
  refine (hasQueryArguments_queryArguments _ _ _ _).retarget ?_ ?_
  · intro given hg
    unfold Catalog.ordering? at hg
    split at hg
    · obtain rfl := Option.some.inj hg
      exact enabledKind_nodeInput cfg (by decide : NodeInput.ordering ≠ .selection) info.type
    · cases hg
  · intro given hg
    split at hg
    · cases hg
    · obtain rfl := Option.some.inj hg
      exact enabledKind_nodeInput cfg (by decide : NodeInput.filter ≠ .selection) info.type

/-- The filter on a relationship is named like the filter on some type. -/
lemma Relationship.filterName_eq (rel : Relationship) (naming : Name) :
    ∃ type, rel.filterName naming = NodeInput.filter.name type := by
  unfold Relationship.filterName
  split
  · exact ⟨_, rfl⟩
  · exact ⟨_, rfl⟩

/-- The arguments of a field that leads to a relationship are set, and retargeting keeps them so. -/
lemma Relationship.hasQueryArguments_arguments (rel : Relationship) (cfg : Settings) (naming : Name)
    (info : FieldInfo) : HasQueryArguments (rel.isReflexive || info.isList) (some rel.orderingName)
      (some (rel.filterName naming)) ((rel.arguments naming info).map (·.retarget cfg)) := by
  refine (hasQueryArguments_queryArguments _ _ _ _).retarget ?_ ?_
  · intro given hg
    obtain rfl := Option.some.inj hg
    exact enabledKind_nodeInput cfg (by decide : NodeInput.ordering ≠ .selection) rel.typeName
  · intro given hg
    obtain rfl := Option.some.inj hg
    obtain ⟨type, hn⟩ := rel.filterName_eq naming
    rw [hn]
    exact enabledKind_nodeInput cfg (by decide) type

/-- Members can be outlined before those that are stored are picked. -/
lemma outlines_eq (infos : List FieldInfo) :
    outlines infos = (infos.map outline).filter isStored := by
  have hcm : (isStored ∘ outline) = isStored := funext outline_isStored
  rw [outlines, filter_map, hcm]

/-- Outlines show whether anything can be ordered. -/
lemma any_isOrderable_outlines (infos : List FieldInfo) :
    (outlines infos).any isOrderable = infos.any isOrderable := by
  have hou (info : FieldInfo) : info.outline.isOrderable = info.isOrderable := by
    have hl : info.outline.isList = info.isList := by simp [isList]
    unfold isOrderable
    rw [hl]
    rfl
  have hst (info : FieldInfo) : (info.isStored && info.isOrderable) = info.isOrderable := by
    unfold isOrderable
    cases info.isStored <;> rfl
  simp only [outlines, any_map, any_filter, Function.comp_def, hou, hst]

namespace Catalog.Follows

variable {c1 c2 : Catalog} (h : c1.Follows c2) (hs : c1.IsSorted) (hp : c1.IsPlain)
  {fd : FieldDef} {defn : TypeDef}
include h

/-! ## Described members -/

/-- A plain name that is not built in stands for the settled type, or for none. -/
lemma get?_settledType {name : Name} (hn : Text.startsWith "_" name = false ∨
    (builtinCategory? (baseKind name)).isSome) (hbi : builtinCategory? (baseKind name) = none) :
    c2.types.get? name = (c1.types.get? name).map c1.settledType := by
  cases hg : c1.types.get? name with
  | some defn => exact h.types name defn hg
  | none =>
    cases h2 : c2.types.get? name with
    | none => rfl
    | some defn =>
      rw [hbi] at hn
      rcases (h.added name defn h2 (get?_eq_none_iff.mp hg)).2 with hus | hk
      · rcases hn with ho | ho
        · exact absurd (hus.symm.trans ho) (by decide)
        · cases ho
      · have hso := builtin_of_mem_kindNames name hk
        rw [hbi] at hso
        cases hso

include hp

/-- A settled member is described as it was before, but for the definition itself. -/
theorem describe_settledField (hf : fd.IsPlain) (owner : Name) (kind : TypeKind) :
    (c1.settledField owner kind fd).describe c2.types =
      { fd.describe c1.types with field := c1.settledField owner kind fd } := by
  have hle := leadsOn_settledField c1 owner kind fd
  have hb := baseKind_of_leadsOn hle
  -- A built-in kind decides the category by itself; the name of any other type stays, and so does the kind of its definition.
  have hcat : categoryOf c2.types (c1.settledField owner kind fd).type.base =
      categoryOf c1.types fd.type.base := by
    rw [categoryOf_eq, categoryOf_eq, hb]
    cases hbi : builtinCategory? (baseKind fd.type.base) with
    | some category => rfl
    | none =>
      rw [eq_of_leadsOn hle hbi, h.get?_settledType hf.type hbi, Option.bind_map]
      simp only [Function.comp_def, settledType_kind]
  have hk (hno : categoryOf c1.types fd.type.base = none) :
      kindOf c2.types (c1.settledField owner kind fd).type.base = kindOf c1.types fd.type.base := by
    rw [categoryOf_eq, Option.or_eq_none_iff] at hno
    unfold kindOf
    rw [eq_of_leadsOn hle hno.1, h.get?_settledType hf.type hno.1]
    cases hg : c1.types.get? fd.type.base with
    | none => rfl
    | some defn =>
      have hv : defn ∈ c1.types.values := mem_map_of_mem (mem_of_get? hg)
      simp only [Option.map_some, Option.bind_some,
        settledType_classification c1 (hp.relation defn hv)]
  unfold FieldDef.describe
  rw [hcat]
  cases hca : categoryOf c1.types fd.type.base with
  | some category => rfl
  | none => simp only [hk hca]

/-- A settled member has the same outline. -/
lemma outline_settledField (hf : fd.IsPlain) (owner : Name) (kind : TypeKind) :
    ((c1.settledField owner kind fd).describe c2.types).outline =
      (fd.describe c1.types).outline := by
  have hds := h.describe_settledField hp hf owner kind
  refine outline_congr ?_ ?_ ?_ ?_ ?_ ?_
  · rw [hds]
  · rw [hds]
  · simp
  · simp [settledField_directives]
  · simp [wrappers, settledField_wrappers]
  · simpa using isIdType_of_leadsOn (leadsOn_settledField c1 owner kind fd)

/-! ## Members of node types -/

include hs

/-- The members of a settled node type, those of its extensions last. -/
lemma membersOf_settledType (hno : defn ∈ c1.nodes) : c2.membersOf (c1.settledType defn) =
    defn.fields.map (c1.settledField defn.name defn.body.kind) ++ addedFields c1 defn ++
      (c1.extensionsOf defn.name).flatMap fun extn =>
      extn.fields.map (c1.settledField defn.name extn.body.kind) := by
  unfold membersOf
  rw [fields_settledType hp.lacksRelations (mem_nodes.mp hno).2, settledType_name,
    h.extensions, flatMap_map]
  congr 1
  refine flatMap_congr fun extn hx => ?_
  have hn := ((mem_extensionsOf hs).mp hx).2
  rw [fields_settledExt hs hp.lacksRelations (.inl ⟨defn, hno, hn.symm⟩), hn]

omit hp in
lemma fieldInfos_settledType (hno : defn ∈ c1.nodes) : c2.fieldInfos defn.name =
    (c2.membersOf (c1.settledType defn)).map (·.describe c2.types) := by
  have hg := h.types _ _ (get?_of_mem_nodes hs hno)
  rw [← fieldInfos_eq (by rw [settledType_name]; exact hg), settledType_name]

/-- The assigned identifier is not stored, so the stored members are outlined as before. -/
lemma outlines_fieldInfos (hno : defn ∈ c1.nodes) :
    outlines (c2.fieldInfos defn.name) = outlines (c1.fieldInfos defn.name) := by
  have hown : ∀ fd ∈ defn.fields, ((c1.settledField defn.name defn.body.kind fd).describe
      c2.types).outline = (fd.describe c1.types).outline := by
    intro fd hf
    exact h.outline_settledField hp (hp.members defn (mem_nodes.mp hno).1 fd hf) _ _
  -- The assigned identifier is not stored.
  have hadd : ((addedFields c1 defn).map fun fd => (fd.describe c2.types).outline).filter isStored =
      [] := by
    rcases addedFields_cases c1 defn with h | ⟨-, -, h⟩ <;>
      simp [h, isStored, isSystemId, systemIdField]
  have hxd : ∀ extn ∈ c1.extensionsOf defn.name,
      extn.fields.map (fun fd => ((c1.settledField defn.name extn.body.kind fd).describe
        c2.types).outline) = extn.fields.map fun fd => (fd.describe c1.types).outline := by
    intro extn hx
    refine map_congr_left fun fd hf => ?_
    exact h.outline_settledField hp (hp.mem_extensionsOf hx fd hf) _ _
  rw [h.fieldInfos_settledType hs hno, h.membersOf_settledType hs hp hno,
    fieldInfos_eq (get?_of_mem_nodes hs hno), outlines_eq, outlines_eq, membersOf]
  simp only [map_append, map_map, filter_append, map_flatMap, Function.comp_def]
  rw [hadd, map_congr_left hown, flatMap_congr hxd, append_nil]

/-- An object type for nodes that is not ignored has the assigned identifier. -/
lemma any_isSystemId (hno : defn ∈ c1.nodes) (hobj : defn.isObject) (hig : defn.isIgnored = false) :
    (c2.fieldInfos defn.name).any isSystemId := by
  rw [h.fieldInfos_settledType hs hno, h.membersOf_settledType hs hp hno, any_map, any_eq_true]
  cases hd : (c1.fieldInfos defn.name).any isSystemId with
  | true =>
    rw [fieldInfos_eq (get?_of_mem_nodes hs hno), any_map, any_eq_true] at hd
    obtain ⟨fd, hf, hid⟩ := hd
    rcases mem_append.mp hf with hown | hxd
    · refine ⟨_, mem_append_left _ (mem_append_left _ (mem_map_of_mem hown)), ?_⟩
      simpa [isSystemId] using hid
    · obtain ⟨extn, hx, hm⟩ := mem_flatMap.mp hxd
      refine ⟨_, mem_append_right _ (mem_flatMap.mpr ⟨extn, hx, mem_map_of_mem hm⟩), ?_⟩
      simpa [isSystemId] using hid
  | false =>
    refine ⟨systemIdField, mem_append_left _ (mem_append_right _ ?_), ?_⟩
    · simp [addedFields, hobj, hig, hd]
    · simp [isSystemId, systemIdField]

/-! ## Settled arguments -/

omit hs in
/-- The same types are augmented, since types that were added stand for no nodes. -/
lemma augments_eq (kind : OperationKind) (type : Name) :
    c2.augments kind type = c1.augments kind type := by
  unfold augments
  cases hg : c1.types.get? type with
  | some defn =>
    have hv : defn ∈ c1.types.values := mem_map_of_mem (mem_of_get? hg)
    have h2 := h.types type defn hg
    have hkn : c1.isExternal type = false := by
      simp [isExternal, NameMap.contains_iff.mpr (mem_keys_of_get? hg)]
    have hset : c2.isExternal type = false := by
      simp [isExternal, NameMap.contains_iff.mpr (mem_keys_of_get? h2)]
    rw [h2, hkn, hset, h.roots, h.settings]
    dsimp only
    rw [settledType_isNode c1 (hp.relation defn hv)]
    cases hno : defn.isNode with
    | false => rfl
    | true => rw [settledType_isIgnored hp.lacksRelations hno]
  | none =>
    cases h2 : c2.types.get? type with
    | none => simp
    | some defn =>
      -- what was added is no node type
      have ho := (h.added type defn h2 (NameMap.get?_eq_none_iff.mp hg)).1
      simp [TypeDef.isNode, ho]

omit hs in
/-- The same fields take arguments. -/
lemma takesArguments_eq (owner type : Name) :
    c2.takesArguments owner type = c1.takesArguments owner type := by
  simp only [takesArguments, h.operations, h.augments_eq hp]

omit hp in
lemma isObject_eq (hno : defn ∈ c1.nodes) : c2.isObject defn.name = c1.isObject defn.name := by
  have hg := get?_of_mem_nodes hs hno
  simp [isObject, hg, h.types _ _ hg, settledType_isObject]

/-- The same node types can be ordered. -/
lemma hasOrdering_eq (hno : defn ∈ c1.nodes) :
    c2.hasOrdering defn.name = c1.hasOrdering defn.name := by
  unfold hasOrdering
  rw [h.isObject_eq hs hno, ← any_isOrderable_outlines (c2.fieldInfos _),
    h.outlines_fieldInfos hs hp hno, any_isOrderable_outlines]

/-- A settled member has all its arguments, so a second augmentation adds none. -/
theorem rootField_settledField (hf : fd.IsPlain) (owner : Name) (kind : TypeKind) :
    rootField c2 owner (c1.settledField owner kind fd) = c1.settledField owner kind fd := by
  have hds := h.describe_settledField hp hf owner kind
  have hig : ((c1.settledField owner kind fd).describe c2.types).isIgnored =
      (fd.describe c1.types).isIgnored := by
    simp [isIgnored]
  unfold rootField
  dsimp only
  rw [hig]
  split
  next hno =>
    rw [hds] at hno ⊢
    -- The field leads to nodes, so its type is not retargeted, and its arguments are those that it has gained.
    have hk : (fd.describe c1.types).kind = .node := by
      simp only [Bool.and_eq_true, decide_eq_true_eq] at hno
      exact hno.1
    have hb := eq_of_leadsOn (leadsOn_settledField c1 owner kind fd) (FieldDef.builtin_of_kind_node hk)
    have har : (c1.settledField owner kind fd).arguments =
        (nodeFieldArguments c1 owner (fd.describe c1.types)).map (·.retarget c1.settings) := by
      rw [settledField, arguments_retargetIn, rootField, if_pos hno]
    have hse : nodeFieldArguments c2 owner { fd.describe c1.types with field := c1.settledField owner kind fd } =
          (c1.settledField owner kind fd).arguments := by
      unfold nodeFieldArguments
      rw [type, hb, h.takesArguments_eq hp]
      split
      next hta =>
        have ht : (fd.describe c1.types).type = fd.type.base := FieldDef.describe_type ..
        have haug : c1.augments .query fd.type.base := by
          simp only [takesArguments, Bool.and_eq_true] at hta
          exact hta.2
        obtain ⟨defn, hd, hn, _⟩ := node_of_augments hs haug
        have hord : c2.ordering? fd.type.base = c1.ordering? fd.type.base := by
          simp only [ordering?, ← hn, h.hasOrdering_eq hs hp hd]
        have hga := hasQueryArguments_nodeArguments c1 c1.settings (fd.describe c1.types)
        rw [nodeFieldArguments, ht, if_pos hta] at har
        rw [← har] at hga
        have heq : HasQueryArguments (c1.settledField owner kind fd).type.wrappers.list
            (c2.ordering? fd.type.base)
            (if (c1.settledField owner kind fd).marked .cypher then none else some (filterName fd.type.base))
            (c1.settledField owner kind fd).arguments := by
          rw [hord, settledField_wrappers, settledField_marked]
          simpa [isList, wrappers, isComputed] using hga
        have hset := heq.queryArguments_eq
        simp only [nodeArguments, type, hb]
        exact hset
      · rfl
    rw [hse]
  · rfl

end Catalog.Follows

end GraphApi
