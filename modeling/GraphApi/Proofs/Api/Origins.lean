import GraphApi.Proofs.Api.Provision
import Mathlib.Data.List.Flatten

/-!
# What generated names are made of

Every generated type and field of an operation type has an origin: the declared names that its own
name is put together from (`Catalog.exists_typeOrigin`, `Catalog.exists_fieldOrigin`). The origin
settles the definition, and the names of input types and mutations settle their origins
(`NodeInput.name_inj`, `FieldOrigin.eq_of_name_eq`).
-/

namespace GraphApi

open List Relationship TypeInputs Text NameMap

variable {cat : Catalog} {owner fd : Name} {desc : TypeDef} {source target : FieldDef}

/-- What a generated type is made for. -/
inductive TypeOrigin where
  /-- An input type of a node type. A relationship type has a filter, an ordering and an input type
  under such names. -/
  | input (input : NodeInput) (type : Name)
  /-- The filter of a relationship between nodes of one type, with one member for each direction. -/
  | directionsFilter (type : Name)
  /-- The filter of a relationship as nodes of the naming type use it. -/
  | filter (naming type : Name)
  /-- The type that a field of a relationship type leads to. -/
  | output (naming field type : Name) (direction : Direction)
  /-- The type with one field for each direction that a member of a relationship type leads to. -/
  | directions (naming : Name) (member : FieldDef)
  | payload (action : RelationshipAction) (owner : Name) (member : FieldDef)
  | fixed (name : Name)

namespace TypeOrigin

def name : TypeOrigin → Name
  | input part type => part.name type
  | directionsFilter type => filterName (type ++ directionsEnd)
  | filter naming type => filterName (naming ++ capitalize type)
  | output naming field _ _ => "_" ++ naming ++ capitalize field
  | directions naming member => "_" ++ naming ++ capitalize member.name ++ directionsEnd
  | payload action owner member => payloadName (action.word ++ owner ++ capitalize member.name)
  | fixed name => name

/-- Whether the name is put together from one declared type and an ending. -/
def isInput : TypeOrigin → Bool
  | input .. => true
  | _ => false

end TypeOrigin

/-- What a generated field of an operation type is made for: the list of a node type, a mutation of
one, or a mutation of the relationship that a member leads to. -/
inductive FieldOrigin where
  | list (type : Name)
  | node (action : NodeAction) (type : Name)
  | relationship (action : RelationshipAction) (owner : Name) (member : FieldDef)

namespace FieldOrigin

def operation : FieldOrigin → OperationKind
  | list _ => .query
  | node .. | relationship .. => .mutation

def word : FieldOrigin → String
  | list _ => ""
  | node action _ => action.word
  | relationship action .. => action.word

def subject : FieldOrigin → Name
  | list type => type
  | node _ type => type
  | relationship _ owner member => owner ++ capitalize member.name

def name (origin : FieldOrigin) : Name := origin.word ++ origin.subject

def isRelationship : FieldOrigin → Bool
  | relationship .. => true
  | _ => false

end FieldOrigin

/-! ## Spelling -/

lemma NodeInput.ending_suffix : ∀ c1 ∈ [filter, ordering, selection, condition, keys,
    create, update], ∀ c2 ∈ [filter, ordering, selection, condition, keys, create, update],
      c1.ending.toList <:+ c2.ending.toList → c1 = c2 := by
  decide

/-- Input types of node types are told apart by their endings. -/
theorem NodeInput.name_inj {i1 i2 : NodeInput} {type other : Name}
    (h : i1.name type = i2.name other) : i1 = i2 ∧ type = other := by
  have hall (input : NodeInput) : input ∈ [filter, ordering, selection, condition, keys,
      create, update] := by
    cases input <;> decide
  have htx : "_".toList ++ type.toList ++ i1.ending.toList = "_".toList ++ other.toList ++
      i2.ending.toList := by
    simpa [name_eq] using congrArg String.toList h
  -- both endings close one text, so one of them is the end of the other
  have h1 := suffix_append ("_".toList ++ type.toList) i1.ending.toList
  have h2 := suffix_append ("_".toList ++ other.toList) i2.ending.toList
  rw [← htx] at h2
  have heq : i1 = i2 := by
    rcases suffix_or_suffix_of_suffix h1 h2 with hin | hin
    · exact ending_suffix i1 (hall _) i2 (hall _) hin
    · exact (ending_suffix i2 (hall _) i1 (hall _) hin).symm
  subst heq
  have ht := append_cancel_left (append_cancel_right htx)
  exact ⟨rfl, String.toList_inj.mp ht⟩

def actionWords : List String := ["Create", "Update", "Delete", "Merge", "Add", "Remove"]

lemma eq_of_isPrefix_actionWords : ∀ c1 ∈ actionWords, ∀ c2 ∈ actionWords,
    c1.toList <+: c2.toList → c1 = c2 := by
  decide

lemma FieldOrigin.word_mem {origin : FieldOrigin} (h : origin.operation = .mutation) :
    origin.word ∈ actionWords := by
  cases origin with
  | list => cases h
  | node action type => cases action <;> simp [word, NodeAction.word, actionWords]
  | relationship action owner m => cases action <;>
      simp [word, RelationshipAction.word, actionWords]

/-- Mutations of one name have the same action, and spell alike what it is about. -/
theorem FieldOrigin.eq_of_name_eq {o1 o2 : FieldOrigin} (h1 : o1.operation = .mutation)
    (h2 : o2.operation = .mutation) (h : o1.name = o2.name) :
    o1.word = o2.word ∧ o1.subject = o2.subject := by
  have ht : o1.word.toList ++ o1.subject.toList = o2.word.toList ++ o2.subject.toList := by
    simpa [name] using congrArg String.toList h
  have hst := prefix_append o1.word.toList o1.subject.toList
  have ho := prefix_append o2.word.toList o2.subject.toList
  rw [← ht] at ho
  have hw : o1.word = o2.word := by
    rcases prefix_or_prefix_of_prefix hst ho with hin | hin
    · exact eq_of_isPrefix_actionWords _ (word_mem h1) _ (word_mem h2) hin
    · exact (eq_of_isPrefix_actionWords _ (word_mem h2) _ (word_mem h1) hin).symm
  rw [hw] at ht
  exact ⟨hw, String.toList_inj.mp (append_cancel_left ht)⟩

lemma FieldOrigin.isRelationship_of_ne {o1 o2 : FieldOrigin} (hop : o1.operation = o2.operation)
    (hn : o1.name = o2.name) (hne : o1 ≠ o2) :
    o1.operation = .mutation ∧ o1.word = o2.word ∧ o1.subject = o2.subject ∧
      (o1.isRelationship ∨ o2.isRelationship) := by
  have hmu (hmut : o1.operation = .mutation) (h : o1.isRelationship ∨ o2.isRelationship) :
      o1.operation = .mutation ∧ o1.word = o2.word ∧ o1.subject = o2.subject ∧
        (o1.isRelationship ∨ o2.isRelationship) := by
    obtain ⟨hw, hsu⟩ := eq_of_name_eq hmut (hop ▸ hmut) hn
    exact ⟨hmut, hw, hsu, h⟩
  cases o1 with
  | relationship action owner m => exact hmu rfl (.inl rfl)
  | list type =>
    cases o2 with
    | list other =>
      have ht : type = other := by simpa [name, word, subject] using hn
      exact absurd (congrArg list ht) hne
    | node action other => cases hop
    | relationship action owner m => cases hop
  | node action type =>
    cases o2 with
    | list other => cases hop
    | relationship otherAction owner m => exact hmu rfl (.inr rfl)
    | node otherAction other =>
      -- two mutations of node types spell alike only if they are the same
      obtain ⟨hw, hsu⟩ := eq_of_name_eq (by rfl) (by rfl) hn
      have hac : action = otherAction := NodeAction.word_inj.mp hw
      have ht : type = other := hsu
      rw [hac, ht] at hne
      exact absurd rfl hne

/-! ## What an origin makes -/

def endFacing (ends : FieldDef × FieldDef) : Direction → Name
  | .incoming => ends.2.type.base
  | .outgoing => ends.1.type.base

namespace Catalog

variable (cat : Catalog)

def described? (type : Name) : Option (TypeDef × FieldDef × FieldDef) :=
  (cat.types.get? type).bind fun desc => desc.endpoints?.map (desc, ·)

def seen? (owner field type : Name) : Option Relationship :=
  (cat.described? type).map fun (desc, ends) =>
    describeRelationshipType cat owner field desc ends.1 ends.2

def facing? (direction : Direction) (field type : Name) : Option Relationship :=
  (cat.described? type).map fun (desc, ends) =>
    describeRelationshipType cat (endFacing ends direction) field desc ends.1 ends.2

def changed? (owner : Name) (member : FieldDef) : Option Relationship :=
  match (member.describe cat.types).kind with
  | .relationship => cat.seen? owner member.name member.type.base
  | .node => some (describeRelation owner (member.describe cat.types))
  | .property | .other => none

def nodeInput? (owner : TypeDef) (input : NodeInput) : Option TypeDef :=
  let infos := cat.fieldInfos owner.name
  let key := primaryKey infos
  let keys := uniqueKeyFields infos key
  match input with
  | .filter => some (nodeInputs cat owner).filterType
  | .ordering => some (nodeInputs cat owner).orderingType
  | .selection => key.map (selectionInput owner.name)
  | .condition => some (whereInput cat.settings owner.name keys)
  | .keys => some (keysInput owner.name keys)
  | .create => some (inputType (createName owner.name) (createArguments infos key))
  | .update => some (inputType (updateName owner.name) (updateMembers infos keys))

def relationshipInput? (rel : Relationship) : NodeInput → Option TypeDef
  | .filter => some (rel.inputs cat.settings rel.owner).filterType
  | .ordering => some (rel.inputs cat.settings rel.owner).orderingType
  | .selection => some rel.propertyInput
  | .condition | .keys | .create | .update => none

def fixedTypes : NameMap TypeDef :=
  (storedTypes cat.settings ++ [directionsEnumDef]).map fun defn => (defn.name, defn)

def typeOf? : TypeOrigin → Option TypeDef
  | .input part type =>
    (cat.types.get? type).bind fun owner =>
      if owner.isNode then cat.nodeInput? owner part
      else (cat.seen? "" "" type).bind (cat.relationshipInput? · part)
  | .directionsFilter type => (cat.seen? "" "" type).map (·.directionsFilter)
  | .filter naming type =>
    (cat.seen? naming "" type).map fun rel => (rel.inputs cat.settings naming).filterType
  | .output naming field type direction =>
    (cat.facing? direction field type).map fun rel => rel.outputType (rel.outputName naming)
  | .directions naming member =>
    (cat.seen? "" member.name member.type.base).map fun rel =>
      rel.directionsType naming (rel.arguments naming (member.describe cat.types))
  | .payload action owner member => (cat.changed? owner member).map (·.payloadType action)
  | .fixed name => cat.fixedTypes.get? name

def fieldOf? : FieldOrigin → Option FieldDef
  | .list type => some (nodeQueryField cat type (cat.fieldInfos type))
  | .node action type => some (nodeMutation cat.settings action type
    (cat.actionArguments type action))
  | .relationship action owner member =>
    (cat.changed? owner member).map (·.mutation cat.settings action)

end Catalog

/-! ## What the types of a relationship depend on -/

namespace Relationship

variable {r1 r2 : Relationship}

lemma orderingType_congr (ht : r1.typeName = r2.typeName)
    (hpr : r1.properties = r2.properties) (cfg : Settings) (naming other : Name) :
    (r1.inputs cfg naming).orderingType = (r2.inputs cfg other).orderingType := by
  simp [inputs_eq, orderingType, orderingName, ht, hpr]

lemma filterType_congr {naming other : Name} (hn : r1.filterName naming = r2.filterName other)
    (hpr : r1.properties = r2.properties) (hf : r1.relatedField = r2.relatedField)
    (ht : r1.relatedType = r2.relatedType)
    (cfg : Settings) : (r1.inputs cfg naming).filterType = (r2.inputs cfg other).filterType := by
  simp [inputs_eq, TypeInputs.filterType, hn, hpr, hf, ht]

end Relationship

lemma direction_of_isReflexive
    (h : (describeRelationshipType cat owner fd desc source target).isReflexive) :
    (describeRelationshipType cat owner fd desc source target).direction = .outgoing := by
  have heq : source.type.base = target.type.base := by
    simpa [isReflexive, describeRelationshipType] using h
  simp [describeRelationshipType, heq]

lemma reflexive_filterType (h : (describeRelationshipType cat owner fd desc source
    target).isReflexive) (other m : Name) (cfg : Settings) (naming c2 : Name) :
    ((describeRelationshipType cat other m desc source target).inputs cfg c2).filterType =
      ((describeRelationshipType cat owner fd desc source target).inputs cfg
        naming).filterType := by
  have ho : (describeRelationshipType cat other m desc source target).isReflexive := h
  have hrel : (describeRelationshipType cat other m desc source target).relatedType =
      (describeRelationshipType cat owner fd desc source target).relatedType := by
    rw [relatedType, relatedType, direction_of_isReflexive h, direction_of_isReflexive ho]
    rfl
  refine filterType_congr ?_ ?_ ?_ hrel cfg
  · rw [Relationship.filterName, Relationship.filterName, if_pos h, if_pos ho]
    rfl
  · rfl
  · rw [relatedField, relatedField, if_pos h, if_pos ho, hrel]

lemma describeRelationshipType_facing (owner fd : Name) (desc : TypeDef)
    (ends : FieldDef × FieldDef) : let rel := describeRelationshipType cat owner fd desc ends.1 ends.2
    describeRelationshipType cat (endFacing ends rel.direction) fd desc ends.1 ends.2 =
      { rel with owner := endFacing ends rel.direction } := by
  intro rel
  by_cases hin : ends.1.type.base ≠ ends.2.type.base ∧ owner = ends.2.type.base
  · simp [rel, describeRelationshipType, hin, endFacing]
  · have hdi : rel.direction = .outgoing := if_neg hin
    have hend : ¬ (ends.1.type.base ≠ ends.2.type.base ∧ ends.1.type.base = ends.2.type.base) := fun h => h.1 h.2
    simp only [hdi, endFacing]
    simp only [rel, describeRelationshipType, if_neg hin, if_neg hend]

/-! ## Every generated type has an origin -/

namespace Catalog

variable {desc owner defn : TypeDef} {fd : FieldDef} {rel : Relationship} {cat : Catalog}
  {ends : FieldDef × FieldDef}

/-- What a registration or an offer comes from: its origin makes the definition and spells the
name. -/
def ComesFrom (defn : TypeDef) (origin : TypeOrigin) : Prop :=
  cat.typeOf? origin = some defn ∧ defn.name = origin.name

lemma described?_eq_some {type : Name} (hg : cat.types.get? type = some desc)
    (hen : desc.endpoints? = some ends) : cat.described? type = some (desc, ends) := by
  simp [described?, hg, hen]

lemma isNode_of_kind {types : NameMap TypeDef} (hk : (fd.describe types).kind = .relationship)
    (hg : types.get? fd.type.base = some desc) : desc.isNode = false := by
  have hcl := FieldDef.bind_classification_of_kind.2 hk
  rw [hg, Option.bind_some] at hcl
  simp [TypeDef.isNode, hcl]

lemma typeOf?_input_of_kind (hk : (fd.describe cat.types).kind = .relationship)
    (hg : cat.types.get? fd.type.base = some desc) (hen : desc.endpoints? = some ends)
    (part : NodeInput) : cat.typeOf? (.input part fd.type.base) =
      cat.relationshipInput? (describeRelationshipType cat "" "" desc ends.1 ends.2) part := by
  simp only [typeOf?, seen?, hg, described?_eq_some hg hen, isNode_of_kind hk hg, Option.bind_some,
    Option.map_some, Bool.false_eq_true, if_false]

section

variable {cat : Catalog} (hs : cat.IsSorted)
include hs

lemma exists_origin_of_reaches (hre : cat.Reaches owner fd rel)
    (h : defn ∈ rel.queryDefs cat owner (fd.describe cat.types)) : ∃ origin, cat.ComesFrom defn origin := by
  obtain ⟨desc, ends, hg, hen, rfl⟩ := reached?_eq_some.mp hre.reached
  have hn : desc.name = fd.type.base := hs.nameOfType _ (mem_of_get? hg)
  have hds := described?_eq_some hg hen
  obtain ⟨-, rfl | ⟨hrefl, rfl⟩ | ⟨hown, rfl | rfl | ⟨hrefl, rfl⟩⟩⟩ := mem_queryDefs.mp h
  · -- the output type depends on the direction in which the owner sees the relationship
    refine ⟨.output (cat.naming owner fd.name) fd.name fd.type.base
      (describeRelationshipType cat owner.name fd.name desc ends.1 ends.2).direction, ?_, ?_⟩
    · simp only [typeOf?, facing?, hds, Option.map_some, describeRelationshipType_facing, FieldDef.describe_name]
      rfl
    · rw [FieldDef.describe_name]
      rfl
  · refine ⟨.directions (cat.naming owner fd.name) fd, ?_, ?_⟩
    · simp only [typeOf?, seen?, hds, Option.map_some, FieldDef.describe_name]
      rfl
    · rw [FieldDef.describe_name]
      rfl
  · have hna : cat.naming owner (fd.describe cat.types).name = owner.name := by
      rw [naming, hown, Option.getD_none]
    rw [hna]
    -- between nodes of one type, the filter is named after the relationship alone
    by_cases hrefl : (describeRelationshipType cat owner.name fd.name desc ends.1 ends.2).isReflexive
    · refine ⟨.input .filter fd.type.base, ?_, ?_⟩
      · rw [typeOf?_input_of_kind hre.kind hg hen]
        exact congrArg some (reflexive_filterType hrefl ..)
      · change (inputs _ _ _).filterName = _
        rw [(relationship_inputs_names ..).1, Relationship.filterName, if_pos hrefl]
        exact congrArg filterName hn
    · refine ⟨.filter owner.name fd.type.base, ?_, ?_⟩
      · simp only [typeOf?, seen?, hds, Option.map_some]
        rfl
      · change (inputs _ _ _).filterName = _
        rw [(relationship_inputs_names ..).1, Relationship.filterName, if_neg hrefl]
        exact congrArg (fun type => filterName (owner.name ++ capitalize type)) hn
  · refine ⟨.input .ordering fd.type.base, ?_, ?_⟩
    · rw [typeOf?_input_of_kind hre.kind hg hen]
      exact congrArg some (orderingType_congr rfl rfl ..)
    · change (inputs _ _ _).orderingName = _
      rw [(relationship_inputs_names ..).2]
      exact congrArg orderingName hn
  · refine ⟨.directionsFilter fd.type.base, ?_, ?_⟩
    · simp only [typeOf?, seen?, hds, Option.map_some]
      rfl
    · exact congrArg (fun type => filterName (type ++ directionsEnd)) hn

omit hs in
lemma changed?_of_relates (h : cat.Relates owner fd rel) :
    cat.changed? owner.name fd = some rel := by
  cases h with
  | reached hobj hre =>
    obtain ⟨desc, ends, hg, hen, rfl⟩ := reached?_eq_some.mp hre.reached
    simp only [changed?, hre.kind, seen?, described?_eq_some hg hen, Option.map_some]
  | relation hobj hk => simp only [changed?, hk]

lemma exists_origin_of_relates (hrel : cat.Relates owner fd rel)
    (h : defn ∈ rel.mutationDefs cat) : ∃ origin, cat.ComesFrom defn origin := by
  obtain ⟨-, ⟨hpr, rfl⟩ | ⟨action, -, rfl⟩⟩ := mem_mutationDefs.mp h
  · cases hrel with
    | reached hobj hre =>
      obtain ⟨desc, ends, hg, hen, rfl⟩ := reached?_eq_some.mp hre.reached
      have hn : desc.name = fd.type.base := hs.nameOfType _ (mem_of_get? hg)
      refine ⟨.input .selection fd.type.base, ?_, ?_⟩
      · rw [typeOf?_input_of_kind hre.kind hg hen]
        rfl
      · exact congrArg selectionName hn
    | relation =>
      -- an anonymous relationship has no properties
      exact absurd rfl hpr
  · obtain ⟨ho, hf⟩ := hrel.names
    refine ⟨.payload action owner.name fd, ?_, ?_⟩
    · simp only [typeOf?, changed?_of_relates hrel, Option.map_some]
    · change payloadName (action.word ++ rel.owner ++ capitalize rel.field) = _
      rw [ho, hf]
      rfl

lemma comesFrom_nodeInput (hno : owner ∈ cat.nodes) (input : NodeInput)
    (h : cat.nodeInput? owner input = some defn) (hn : defn.name = input.name owner.name) :
    ∃ origin, cat.ComesFrom defn origin := by
  refine ⟨.input input owner.name, ?_, hn⟩
  rwa [typeOf?, get?_of_mem_nodes hs hno, Option.bind_some, if_pos (mem_nodes.mp hno).2]

/-- Every generated type has an origin. -/
theorem exists_typeOrigin (h : cat.Registers defn) : ∃ origin, cat.ComesFrom defn origin := by
  cases h with
  | field hno hf h =>
    rcases mem_fieldTypes.mp h with ⟨rel, hre, h⟩ | ⟨rel, hrel, h⟩
    · exact exists_origin_of_reaches hs hre h
    · exact exists_origin_of_relates hs hrel h
  | selection hno hobj haug hk =>
    exact comesFrom_nodeInput hs hno .selection (by rw [nodeInput?, hk]; rfl) rfl
  | input hno hobj haug hexp h =>
    rcases mem_types_inputMutations.mp h with ⟨-, rfl⟩ | ⟨-, rfl | rfl | ⟨-, rfl⟩⟩
    · exact comesFrom_nodeInput hs hno .create rfl rfl
    · exact comesFrom_nodeInput hs hno .condition rfl rfl
    · exact comesFrom_nodeInput hs hno .keys rfl rfl
    · exact comesFrom_nodeInput hs hno .update rfl rfl
  | @filter owner hno =>
    exact comesFrom_nodeInput hs hno .filter rfl (nodeInputs_names cat owner).1
  | @ordering owner hno =>
    exact comesFrom_nodeInput hs hno .ordering rfl (nodeInputs_names cat owner).2

end

lemma sublist_storedTypes (cfg : Settings) : Sublist (storedTypes cfg) (storedTypes {}) := by
  refine Sublist.append ?_ ?_
  · exact filter_sublist.flatMap _
  · exact filter_sublist.flatMap _

lemma nodup_keys_fixedTypes : cat.fixedTypes.keys.Nodup := by
  have hall : ((storedTypes {} ++ [directionsEnumDef]).map (·.name)).Nodup := by decide
  unfold fixedTypes NameMap.keys
  rw [map_map]
  exact hall.sublist (((sublist_storedTypes cat.settings).append (Sublist.refl _)).map _)

lemma comesFrom_of_isFixed (h : cat.IsFixed defn) : cat.ComesFrom defn (.fixed defn.name) := by
  refine ⟨get?_eq_some_of_mem cat.nodup_keys_fixedTypes (mem_map_of_mem ?_), rfl⟩
  rcases h with h | rfl
  · exact mem_append_left _ h
  · exact mem_append_right _ (mem_singleton_self _)

/-- Every generated field of an operation type has an origin. -/
theorem exists_fieldOrigin {op : OperationKind} (h : cat.Offers op fd) : ∃ origin :
    FieldOrigin, origin.operation = op ∧
    cat.fieldOf? origin = some fd ∧ fd.name = origin.name := by
  rcases h.shape with ⟨rfl, owner, -, -, rfl⟩ | ⟨rfl, owner, -, -, action, rfl⟩ |
    ⟨rfl, owner, -, m, -, rel, hrel, -, action, -, rfl⟩
  · refine ⟨.list owner.name, rfl, rfl, ?_⟩
    exact String.empty_append.symm
  · exact ⟨.node action owner.name, rfl, rfl, rfl⟩
  · obtain ⟨ho, hf⟩ := hrel.names
    refine ⟨.relationship action owner.name m, rfl, ?_, ?_⟩
    · rw [fieldOf?, changed?_of_relates hrel, Option.map_some]
    · change action.word ++ rel.owner ++ capitalize rel.field = _
      rw [ho, hf, String.append_assoc]
      rfl

end Catalog

end GraphApi
