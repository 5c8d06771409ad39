import GraphApi.Proofs.Api.CoveredArguments
import GraphApi.Proofs.Api.Success

/-!
# Catalogs without relationships

The names of the mutations of a node type, and of the input types that they take, depend only on
which fields are stored, and of those on the names, directives, wrappers and whether they are
identifiers (`primaryKey_outlines`, `Catalog.names_nodeMutations_congr`,
`Catalog.names_inputTypes_congr`). Where nothing carries `relation`, a field of a node type changes
the way a field of an operation type does: it may gain arguments and nothing else
(`Catalog.LacksRelations.fieldGain_field`). Retargeting changes only its type, within the same kind
of values (`baseKind_of_leadsOn`).
-/

namespace GraphApi

open List FieldInfo Catalog FieldDef SpatialKind

/-- A described field without its arguments, and without its named type unless that is the type of
identifiers. -/
def FieldInfo.outline (info : FieldInfo) : FieldInfo :=
  { info with
    field :=
      { name := info.name
        type := info.wrappers.wrap (if isIdType info.type then info.type else "")
        directives := info.field.directives } }

def outlines (infos : List FieldInfo) : List FieldInfo :=
  (infos.filter FieldInfo.isStored).map FieldInfo.outline

def PrimaryKey.outline (key : PrimaryKey) : PrimaryKey :=
  { key with info := key.info.outline }

@[simp] lemma TypeRef.wrappers_wrap (type : TypeRef) (name : Name) :
    (type.wrappers.wrap name).wrappers = type.wrappers := by
  cases type with
  | named _ required => rfl
  | list item required => simp [wrappers, Wrappers.wrap]

namespace FieldInfo

/-! ## One field -/

variable (info : FieldInfo)

@[simp] lemma outline_name : info.outline.name = info.name := rfl

@[simp] lemma outline_wrappers : info.outline.wrappers = info.wrappers := TypeRef.wrappers_wrap ..

@[simp] lemma outline_marked (mark : Mark) :
    info.outline.field.marked mark = info.field.marked mark := rfl

@[simp] lemma isIdType_outline : isIdType info.outline.type = isIdType info.type := by
  have hb : info.outline.type = if isIdType info.type then info.type else "" :=
    Wrappers.base_wrap ..
  rw [hb]
  split
  · rfl
  next ho =>
    rw [Bool.not_eq_true] at ho
    rw [ho]
    rfl

lemma outline_congr {i1 i2 : FieldInfo} (hk : i2.kind = i1.kind) (hcat : i2.category = i1.category)
    (hn : i2.name = i1.name) (hdr : i2.field.directives = i1.field.directives)
    (hwr : i2.wrappers = i1.wrappers) (hid : isIdType i2.type = isIdType i1.type) :
    i2.outline = i1.outline := by
  have ht : (if isIdType i2.type then i2.type else "") = if isIdType i1.type then i1.type
      else "" := by
    rw [hid]
    split
    next h1 =>
      have h2 := hid.trans h1
      simp only [isIdType, decide_eq_true_eq] at h1 h2
      rw [h1, h2]
    · rfl
  simp only [outline, hk, hcat, hn, hdr, hwr, ht]

@[simp] lemma outline_isStored : info.outline.isStored = info.isStored := rfl

@[simp] lemma outline_isKey : info.outline.isKey = info.isKey := by
  have hl : info.outline.isList = info.isList := by simp [isList]
  unfold isKey
  rw [hl]
  rfl

@[simp] lemma outline_isRequired : info.outline.isRequired = info.isRequired := by
  simp [isRequired]

@[simp] lemma outline_isMarkedKey : info.outline.isMarkedKey = info.isMarkedKey := rfl

lemma isStored_of_isKey {info : FieldInfo} (h : info.isKey) : info.isStored := by
  simp only [isKey, Bool.and_eq_true] at h
  exact h.1.1.1.1

end FieldInfo

/-! ## Keys -/

variable (infos : List FieldInfo)

lemma keyFields_outlines : keyFields (outlines infos) = (keyFields infos).map outline := by
  have hcm : (isKey ∘ outline) = isKey := funext outline_isKey
  have hks : (infos.filter isStored).filter isKey = infos.filter isKey := by
    rw [filter_filter]
    refine filter_congr fun info _ => ?_
    cases hk : info.isKey with
    | false => rfl
    | true => simp [isStored_of_isKey hk]
  simp only [keyFields, outlines, filter_map, hcm, hks]

lemma find?_map_outline {test : FieldInfo → Bool} (h : ∀ info, test info.outline = test info)
    (infos : List FieldInfo) : (infos.map outline).find? test = (infos.find? test).map outline := by
  have hcm : (test ∘ outline) = test := funext h
  rw [find?_map, hcm]

lemma inferKey_map_outline : inferKey (infos.map outline) = (inferKey infos).map outline := by
  unfold inferKey
  rw [find?_map_outline (fun info => by simp), find?_map_outline (fun info => by simp),
    find?_map_outline (fun info => by simp), head?_map]
  simp only [Option.map_or]

/-- Outlines are enough to choose the primary key. -/
theorem primaryKey_outlines : primaryKey (outlines infos) =
    (primaryKey infos).map PrimaryKey.outline := by
  have hmk (mark : Mark) : firstMarked mark ((keyFields infos).map outline) =
      (firstMarked mark (keyFields infos)).map outline :=
    find?_map_outline (fun info => info.outline_marked mark) _
  simp only [primaryKey, keyFields_outlines, hmk, inferKey_map_outline, Option.map_or,
    Option.map_map]
  rfl

lemma uniqueKeyFields_outlines (key : Option PrimaryKey) :
    uniqueKeyFields (outlines infos) (key.map PrimaryKey.outline) =
      (uniqueKeyFields infos key).map outline := by
  have hcm : (isMarkedKey ∘ outline) = isMarkedKey := funext outline_isMarkedKey
  simp only [uniqueKeyFields, keyFields_outlines, filter_map, hcm, isEmpty_map]
  split
  · cases key <;> rfl
  · rfl

/-! ## Mutations -/

lemma filter_outlines (test : Name → Bool) :
    ((outlines infos).filter fun info => info.isStored && test info.name) =
    (infos.filter fun info => info.isStored && test info.name).map outline := by
  have hcm : ((fun info : FieldInfo => info.isStored && test info.name) ∘ outline) =
      fun info => info.isStored && test info.name := rfl
  have hst : (infos.filter isStored).filter (fun info => info.isStored && test info.name) =
      infos.filter fun info => info.isStored && test info.name := by
    rw [filter_filter]
    refine filter_congr fun info _ => ?_
    cases info.isStored <;> simp
  simp only [outlines, filter_map, hcm, hst]

lemma isEmpty_createArguments_outlines (key other : Option PrimaryKey) :
    (createArguments (outlines infos) key).isEmpty = (createArguments infos other).isEmpty := by
  have hst := filter_outlines infos fun _ => true
  simp only [Bool.and_true] at hst
  simp only [createArguments, isEmpty_map]
  rw [hst, isEmpty_map]

lemma isEmpty_updateMembers_outlines (keys : List FieldInfo) :
    (updateMembers (outlines infos) (keys.map outline)).isEmpty =
    (updateMembers infos keys).isEmpty := by
  have hns : (keys.map outline).map FieldInfo.name = keys.map FieldInfo.name := by simp
  have hos := filter_outlines infos fun name => !(keys.map FieldInfo.name).contains name
  simp only [updateMembers, hns, hos, isEmpty_map]

lemma names_flatMutations_outlines (cfg : Settings) (type : Name) (infos : List FieldInfo)
    (key : Option PrimaryKey) :
    (flatMutations cfg type (outlines infos) (key.map PrimaryKey.outline)).map (·.name) =
      (flatMutations cfg type infos key).map (·.name) := by
  cases key with
  | none => rfl
  | some key =>
    have hlen : (updateArguments (outlines infos) key.outline).length =
        (updateArguments infos key).length := by
      have hos := congrArg length (filter_outlines infos fun name => decide (name ≠ key.name))
      rw [length_map] at hos
      simp only [updateArguments, length_cons, length_map]
      exact congrArg (· + 1) hos
    simp only [flatMutations, Option.map_some, hlen]
    split <;> rfl

lemma names_inputMutations_outlines (cfg : Settings) (type : Name) (infos : List FieldInfo)
    (key : Option PrimaryKey) :
    (inputMutations cfg type (outlines infos) (key.map PrimaryKey.outline)).fields.map (·.name) =
        (inputMutations cfg type infos key).fields.map (·.name) ∧
      (inputMutations cfg type (outlines infos) (key.map PrimaryKey.outline)).types.map (·.name) =
        (inputMutations cfg type infos key).types.map (·.name) := by
  have hcr := isEmpty_createArguments_outlines infos (key.map PrimaryKey.outline) key
  have hup := isEmpty_updateMembers_outlines infos (uniqueKeyFields infos key)
  have hks : ((uniqueKeyFields infos key).map outline).isEmpty =
    (uniqueKeyFields infos key).isEmpty := isEmpty_map
  simp only [updateMembers] at hup
  simp only [inputMutations, uniqueKeyFields_outlines, hcr, hup, hks, Option.isNone_map]
  -- Both sides are put together from pieces of the same names under the same three conditions.
  split
  · split <;> exact ⟨rfl, rfl⟩
  · split <;> split <;> exact ⟨rfl, rfl⟩

namespace Catalog

section Outlines
variable {c1 c2 : Catalog} (hset : c2.settings = c1.settings) {type : Name}
  (h : outlines (c2.fieldInfos type) = outlines (c1.fieldInfos type))
include h

lemma isSome_primaryKey_congr : (primaryKey (c2.fieldInfos type)).isSome =
    (primaryKey (c1.fieldInfos type)).isSome := by
  have hks : (primaryKey (c2.fieldInfos type)).map PrimaryKey.outline =
      (primaryKey (c1.fieldInfos type)).map PrimaryKey.outline := by
    rw [← primaryKey_outlines, ← primaryKey_outlines, h]
  simpa using congrArg Option.isSome hks

include hset

/-- Node types with the same outlines have mutations of the same names. -/
theorem names_nodeMutations_congr :
    (c2.nodeMutations type).map (·.name) = (c1.nodeMutations type).map (·.name) := by
  unfold nodeMutations
  rw [hset]
  split
  · rw [← (names_inputMutations_outlines _ _ _ _).1,
      ← (names_inputMutations_outlines _ _ (c1.fieldInfos type) _).1,
      ← primaryKey_outlines, ← primaryKey_outlines, h]
  · rw [← names_flatMutations_outlines, ← names_flatMutations_outlines _ _ (c1.fieldInfos type),
      ← primaryKey_outlines, ← primaryKey_outlines, h]

/-- Node types with the same outlines have input types of the same names. -/
theorem names_inputTypes_congr :
    (inputMutations c2.settings type (c2.fieldInfos type)
      (primaryKey (c2.fieldInfos type))).types.map (·.name) =
      (inputMutations c1.settings type (c1.fieldInfos type)
        (primaryKey (c1.fieldInfos type))).types.map (·.name) := by
  rw [hset, ← (names_inputMutations_outlines _ _ _ _).2,
    ← (names_inputMutations_outlines _ _ (c1.fieldInfos type) _).2,
    ← primaryKey_outlines, ← primaryKey_outlines, h]

end Outlines

end Catalog

/-! ## Catalogs without relationships -/

variable {cfg : Settings} {pre after : Name} {defn : TypeDef}

/-- A member without `relation`. Its type has a name with a leading underscore only if that stands
for a built-in scalar or a temporal or spatial kind. -/
structure FieldDef.IsPlain (field : FieldDef) : Prop where
  relation : field.marked .relation = false
  type : Text.startsWith "_" field.type.base = false ∨
    (builtinCategory? (baseKind field.type.base)).isSome

namespace Catalog

/-- No type of the catalog is a relationship, and no member of its node types carries `relation`. -/
structure LacksRelations (cat : Catalog) : Prop where
  types : ∀ name defn, cat.types.get? name = some defn → defn.classification ≠ some .relationship
  members : ∀ owner ∈ cat.nodes, ∀ field ∈ cat.membersOf owner, field.marked .relation = false

/-- Nothing in the catalog carries `relation`, and no type has a name with a leading underscore. -/
structure IsPlain (cat : Catalog) : Prop where
  names : ∀ name ∈ cat.types.keys, Text.startsWith "_" name = false
  relation : ∀ defn ∈ cat.types.values, relationDirective defn.directives = none
  members : ∀ defn ∈ cat.types.values, ∀ field ∈ defn.fields, field.IsPlain
  extensions : ∀ extn ∈ cat.extensions.flatMap (·.2), ∀ field ∈ extn.fields, field.IsPlain
  roots : ∀ root ∈ cat.roots, ∀ field ∈ root.2.fields, field.IsPlain

end Catalog

/-! ## Names of kinds -/

lemma builtin_of_mem_kindNames : ∀ kind ∈ kindNames, (builtinCategory? (baseKind kind)).isSome := by
  decide

lemma builtin_of_enabledKind {type kind : Name} (h : enabledKind? cfg type = some kind) :
    (builtinCategory? (baseKind type)).isSome := by
  obtain ⟨hb, ⟨temporal, rfl, _⟩ | ⟨spatial, rfl, _⟩⟩ := enabledKind?_eq_some.mp h
  · rw [hb]
    cases temporal <;> decide
  · rw [hb]
    cases spatial
    decide

/-- A retargeted name stands for the same kind of value. -/
theorem baseKind_of_leadsOn (h : LeadsOn cfg pre after) : baseKind after = baseKind pre := by
  rcases h with rfl | ⟨kind, hen, rfl | rfl⟩
  · rfl
  · have hb := (enabledKind?_eq_some.mp hen).1
    have ha := (enabledKind?_eq_some.mp (enabledKind?_stored hen).1).1
    rw [hb, ha]
  · have hb := (enabledKind?_eq_some.mp hen).1
    have ha := (enabledKind?_eq_some.mp (enabledKind?_stored hen).2).1
    rw [hb, ha]

lemma eq_of_leadsOn (h : LeadsOn cfg pre after) (hbi : builtinCategory? (baseKind pre) = none) :
    after = pre := by
  rcases h with heq | ⟨kind, hen, _⟩
  · exact heq
  · have hso := builtin_of_enabledKind hen
    rw [hbi] at hso
    cases hso

lemma isIdType_of_leadsOn (h : LeadsOn cfg pre after) : isIdType after = isIdType pre := by
  have hki : ∀ temporal : TemporalKind, isIdType (storedTypeName temporal.word) = false ∧
      isIdType (storedInputName temporal.word) = false ∧ temporal.word ≠ baseKind "ID" := by
    intro temporal
    cases temporal <;> decide
  have hpo : isIdType (storedTypeName point.word) = false ∧
      isIdType (storedInputName point.word) = false ∧ point.word ≠ baseKind "ID" := by
    decide
  -- A name of an enabled kind is no identifier, before or after.
  have ho (hne : baseKind pre ≠ baseKind "ID") : isIdType pre = false := by
    simp only [isIdType, decide_eq_false_iff_not]
    rintro rfl
    exact hne rfl
  rcases h with rfl | ⟨kind, hen, ha⟩
  · rfl
  · obtain ⟨hb, ⟨temporal, rfl, _⟩ | ⟨spatial, rfl, _⟩⟩ := enabledKind?_eq_some.mp hen
    · obtain ⟨hou, hin, hne⟩ := hki temporal
      rw [ho (by rw [hb]; exact hne)]
      rcases ha with rfl | rfl <;> assumption
    · cases spatial
      obtain ⟨hou, hin, hne⟩ := hpo
      rw [ho (by rw [hb]; exact hne)]
      rcases ha with rfl | rfl <;> assumption

/-! ## Retargeted members -/

variable (cfg : Settings)

lemma type_retargetIn_cases (kind : TypeKind) (fd : FieldDef) :
    (fd.retargetIn cfg kind).type = fd.type ∨
    (fd.retargetIn cfg kind).type = retargetRef cfg storedTypeName fd.type ∨
    (fd.retargetIn cfg kind).type = retargetRef cfg storedInputName fd.type := by
  have hou : (fd.retarget cfg).type = fd.type ∨
      (fd.retarget cfg).type = retargetRef cfg storedTypeName fd.type := by
    unfold retarget
    split
    · exact .inl rfl
    · exact .inr rfl
  unfold retargetIn
  split
  · unfold retargetInput
    split
    · rcases hou with heq | hret
      · exact .inl heq
      · exact .inr (.inl hret)
    · exact .inr (.inr rfl)
  · rcases hou with heq | hret
    · exact .inl heq
    · exact .inr (.inl hret)

lemma FieldDef.type_retargetIn_of_disabled {cfg : Settings} {fd : FieldDef}
    (h : enabledKind? cfg fd.type.base = none) (kind : TypeKind) :
    (fd.retargetIn cfg kind).type = fd.type := by
  rcases type_retargetIn_cases cfg kind fd with heq | hou | hin
  · exact heq
  · rw [hou, retargetRef_of_disabled h]
  · rw [hin, retargetRef_of_disabled h]

lemma leadsOn_retargetIn (kind : TypeKind) (fd : FieldDef) :
    LeadsOn cfg fd.type.base (fd.retargetIn cfg kind).type.base := by
  rcases type_retargetIn_cases cfg kind fd with heq | hou | hin
  · exact .inl (by rw [heq])
  · rw [hou]
    exact leadsOn_retargetRef cfg (.inl rfl) _
  · rw [hin]
    exact leadsOn_retargetRef cfg (.inr rfl) _

lemma wrappers_retargetRef (typeName : Name → Name) (type : TypeRef) :
    (retargetRef cfg typeName type).wrappers = type.wrappers := by
  unfold retargetRef
  split
  · split
    · rfl
    · exact TypeRef.wrappers_wrap ..
  · rfl

lemma wrappers_retargetIn (kind : TypeKind) (fd : FieldDef) :
    (fd.retargetIn cfg kind).type.wrappers = fd.type.wrappers := by
  rcases type_retargetIn_cases cfg kind fd with heq | hou | hin
  · rw [heq]
  · rw [hou, wrappers_retargetRef]
  · rw [hin, wrappers_retargetRef]

lemma isOperation_retargetIn (kind : TypeKind) (fd : FieldDef) :
    (fd.retargetIn cfg kind).isOperation = fd.isOperation := by
  unfold retargetIn
  split <;> rfl

/-! ## Types that are no relationships -/

lemma TypeDef.endpoints_of_relation (h : relationDirective defn.directives = none) :
    defn.endpoints? = none := by
  simp [endpoints?, h]

lemma TypeDef.checkEndpoints_of_relation (h : relationDirective defn.directives = none) :
    defn.checkEndpoints = .ok () := by
  simp [checkEndpoints, h, checkReadable]

lemma TypeDef.checkEndpoints_of_classification (h : defn.classification = none) :
    defn.checkEndpoints = .ok () := by
  have ho : (!defn.body.isStructural || isStoredTypeName defn.name ||
      isIntrospectionName defn.name) := by
    unfold classification at h
    split at h
    · assumption
    · split at h <;> cases h
  have hun : (defn.body.isStructural && !isStoredTypeName defn.name &&
      !isIntrospectionName defn.name) = false := by
    cases hsr : defn.body.isStructural <;> cases hst : isStoredTypeName defn.name <;>
      cases hin : isIntrospectionName defn.name <;> simp_all
  simp [checkEndpoints, hun]

lemma FieldDef.builtin_of_kind_node {types : NameMap TypeDef} {fd : FieldDef}
    (h : (fd.describe types).kind = .node) : builtinCategory? (baseKind fd.type.base) = none := by
  cases hbi : builtinCategory? (baseKind fd.type.base) with
  | none => rfl
  | some category => simp [describe, categoryOf, hbi] at h

namespace Catalog

variable {cat : Catalog}

lemma IsPlain.mem_extensionsOf (hp : cat.IsPlain) {type : Name} {extn : TypeExt}
    (h : extn ∈ cat.extensionsOf type) : ∀ fd ∈ extn.fields, fd.IsPlain :=
  hp.extensions extn (mem_extensions_of_mem_extensionsOf h)

lemma IsPlain.lacksRelations (hp : cat.IsPlain) : cat.LacksRelations where
  types := by
    intro name defn hg
    have hv : defn ∈ cat.types.values := mem_map_of_mem (NameMap.mem_of_get? hg)
    have hen := TypeDef.endpoints_of_relation (hp.relation defn hv)
    simp [TypeDef.classification, hen]
  members := by
    intro owner ho fd hf
    rcases mem_append.mp hf with hown | hadd
    · exact (hp.members owner (mem_nodes.mp ho).1 fd hown).relation
    · obtain ⟨extn, hx, hm⟩ := mem_flatMap.mp hadd
      exact (hp.mem_extensionsOf hx fd hm).relation

namespace LacksRelations

variable {cat : Catalog} (h : cat.LacksRelations) {owner : TypeDef} {fd : FieldDef}
include h

lemma kind_ne_relationship (fd : FieldDef) : (fd.describe cat.types).kind ≠ .relationship := by
  intro hk
  have hbn := bind_classification_of_kind.2 hk
  obtain ⟨defn, hg, hcl⟩ := Option.bind_eq_some_iff.mp hbn
  exact h.types _ defn hg hcl

/-- Without relationships, fields of nodes become what fields of operation types become. -/
theorem fieldGain_field (owner : TypeDef) (fd : FieldDef) :
    (fieldGain cat owner fd).field = rootField cat owner.name fd := by
  unfold fieldGain rootField
  dsimp only
  cases hig : (fd.describe cat.types).isIgnored with
  | true => simp
  | false =>
    cases hk : (fd.describe cat.types).kind with
    | property => simp [propertyGain]
    | node => simp [nodeFieldGain]
    | relationship => exact absurd hk (h.kind_ne_relationship fd)
    | other => simp

lemma not_relates {rel : Relationship} (hmk : fd.marked .relation = false) :
    ¬cat.Relates owner fd rel := by
  intro hrel
  cases hrel with
  | reached _ hre => exact h.kind_ne_relationship fd hre.kind
  | relation _ _ _ _ hrl =>
    rw [isRelation, describe_field, hmk] at hrl
    cases hrl

lemma not_mem_fieldTypes (hmk : fd.marked .relation = false) (defn : TypeDef) :
    defn ∉ fieldTypes cat owner fd := by
  intro hm
  rcases mem_fieldTypes.mp hm with ⟨rel, hre, _⟩ | ⟨rel, hrel, _⟩
  · exact h.kind_ne_relationship fd hre.kind
  · exact h.not_relates hmk hrel

end LacksRelations

end Catalog

end GraphApi
