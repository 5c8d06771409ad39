import GraphApi.Proofs.Api.Contention
import GraphApi.Proofs.Api.RelationshipClosure
import Mathlib.Data.List.Pairwise

/-!
# What filters and orderings consist of

A filter has `AND` and `OR` and what each field gives in the order of declaration, an ordering has
two values for each property that can be ordered by, each once: `Document.exactInputs_of_augment`. A
field may be called like a filter of another one. That is the only way in which two filters of a
type get one name: `Document.separatesFilters_of_augment`.
-/

namespace GraphApi

open List FieldInfo NodeInput Document Event

variable (cat : Catalog)

/-- The values to order nodes of a type by: two for each of its orderable properties, and of an
object type for the assigned identifier. -/
def Catalog.orderingOf (owner : TypeDef) : List Name :=
  (((cat.membersOf owner).filter fun field =>
    (field.describe cat.types).isOrderable).map (·.name) ++
    if owner.isObject then ["_id"] else []).flatMap fun name => [name ++ "_asc", name ++ "_desc"]

/-- The filter and the ordering of a node type have what its fields give, and nothing else. -/
structure Catalog.HasExactInputs (cat : Catalog) (owner : TypeDef) : Prop where
  /-- The filter is registered with the query API. Its members are the combinators and what each
  field gives, in order. -/
  filter : ∃ given : FieldDef → List ArgumentDef,
    (∀ field, cat.GivesFilters owner field (given field)) ∧
    ∀ defn, (register defn true ∈ (augmentTypes cat).events ∧ defn.name = filterName owner.name) ↔
      cat.augments .query owner.name ∧
        defn = filterType (filterName owner.name) ((cat.membersOf owner).flatMap given)
  /-- A property is compared by equality and by the operators of its category, but not as a member
  of a list if it is one, and by its distance only if there are points. -/
  property : ∀ info : FieldInfo, ∀ category, info.category = some category →
    (propertyFilters cat.settings info).map (·.name) =
      info.name :: ((FilterOp.ofCategory category).filter fun op =>
      !(info.isList && op.isMembership) &&
      (!op.isDistance || cat.settings.enablesSpatial .point)).map (operatorName info.name)
  relation : ∀ field filter isList, (relationFilters field filter isList).map (·.name) =
    [field, field ++ "_not", field ++ "_in", field ++ "_not_in"] ++
      if isList then [field ++ "_some", field ++ "_none", field ++ "_single", field ++ "_every"]
        else []
  /-- The ordering is registered if it has a value. A value that is given again is left out. -/
  ordering : ∀ defn, (register defn true ∈ (augmentTypes cat).events ∧
    defn.name = orderingName owner.name) ↔
    cat.augments .query owner.name ∧ cat.orderingOf owner ≠ [] ∧
      defn = enumType (orderingName owner.name) (cat.orderingOf owner).eraseDups
  /-- No value is given again if the names of the fields are distinct. -/
  distinct : ((cat.membersOf owner).map (·.name)).Nodup → (cat.orderingOf owner).eraseDups =
    cat.orderingOf owner

/-! ## Orderings -/

lemma eraseDups_of_nodup {vals : List Name} (h : vals.Nodup) : vals.eraseDups = vals := by
  induction vals with
  | nil => rfl
  | cons value rest ih =>
    obtain ⟨hnew, hrs⟩ := nodup_cons.mp h
    have hfi : rest.filter (fun other => !other == value) = rest := by
      rw [filter_eq_self]
      intro other ho
      simpa using ne_of_mem_of_not_mem ho hnew
    rw [eraseDups_cons, hfi, ih hrs]

namespace Catalog

variable {cat : Catalog} {owner defn : TypeDef} {aug : Document}

lemma ordering_nodeInputs (owner : TypeDef) :
    (nodeInputs cat owner).ordering = (cat.orderingOf owner).eraseDups := by
  have hvs (fields : List FieldDef) : (fields.flatMap fun fd => (fd.describe cat.types).ordering) =
      ((fields.filter fun fd => (fd.describe cat.types).isOrderable).map (·.name)).flatMap
        fun name => [name ++ "_asc", name ++ "_desc"] := by
    induction fields with
    | nil => rfl
    | cons fd rest ih =>
      rw [flatMap_cons, ih, filter_cons, FieldInfo.ordering]
      split <;> simp [orderingValues]
  cases h : owner.isObject <;>
    simp [nodeInputs_eq, orderingOf, ordering_fieldGain, hvs, orderingValues, systemId, h]

lemma nodup_orderingOf (h : ((cat.membersOf owner).map (·.name)).Nodup) :
    (cat.orderingOf owner).Nodup := by
  have hap (fst snd : Name) : fst ++ "_asc" ≠ snd ++ "_desc" := by
    intro heq
    rcases Text.append_eq_append_cases heq with ⟨mid, -, hmid⟩ | ⟨mid, -, hmid⟩ <;>
      cases (by decide : Text.dropEnd? _ _ = none).symm.trans (Text.dropEnd?_eq_some_iff.mpr hmid)
  have hna : (((cat.membersOf owner).filter fun fd =>
      (fd.describe cat.types).isOrderable).map (·.name) ++
      if owner.isObject then ["_id"] else []).Nodup := by
    refine nodup_append.mpr ⟨h.sublist (filter_sublist.map _), by split <;> simp, ?_⟩
    rintro name hn _ hid rfl
    -- the assigned identifier is no stored property
    obtain ⟨fd, hf, rfl⟩ := mem_map.mp hn
    have hid : fd.name = "_id" := by
      split at hid
      · exact mem_singleton.mp hid
      · cases hid
    simp [isOrderable, isStored, isSystemId, systemId, hid] at hf
  refine nodup_flatMap.mpr ⟨fun name _ => by simp [hap], hna.imp fun {fst snd} hne => ?_⟩
  simp [Function.onFun, hap, hne.symm, fun fst snd => (hap fst snd).symm]

/-! ## Registrations of owners -/

lemma register_mem_events (h : cat.augment.outcome = .ok aug) {own : Bool} :
    register defn own ∈ (augmentTypes cat).events ↔ register defn own ∈ cat.effects := by
  obtain ⟨outcomes, hpa⟩ := augmentTypes_ok h
  rw [effects, ← ((augmentTypes_traces cat).yields hpa).effects, mem_filter]
  simp [Pass.isEffect]

lemma registerOwn_mem_events (hs : cat.IsSorted) (h : cat.augment.outcome = .ok aug)
    (hno : owner ∈ cat.nodes)
    (input : NodeInput) : (register defn true ∈ (augmentTypes cat).events ∧
      defn.name = input.name owner.name) ↔
      register defn true ∈ nodeEffects cat owner ∧ defn.name = input.name owner.name := by
  rw [register_mem_events h, mem_effects]
  refine and_congr_left fun hn => ⟨?_, fun hm => ⟨owner, hno, hm⟩⟩
  rintro ⟨rival, hri, hm⟩
  obtain ⟨other, ho, -⟩ := nodeInput?_of_registerOwn hm
  have heq := (name_inj (hn.symm.trans ho)).2
  have hg := get?_of_mem_nodes hs hno
  rw [heq, get?_of_mem_nodes hs hri] at hg
  rwa [← Option.some.inj hg]

lemma hasExactInputs (hs : cat.IsSorted) (h : cat.augment.outcome = .ok aug)
    (hno : owner ∈ cat.nodes) : cat.HasExactInputs owner := by
  have hne {fst snd : NodeInput} (hn : fst.name owner.name = snd.name owner.name) : fst = snd :=
    (name_inj hn).1
  have hfi := (nodeInputs_names cat owner).1
  have hor := (nodeInputs_names cat owner).2
  refine ⟨⟨_, givesFilters_fieldGain cat owner, fun defn => ?_⟩, fun info category hca => ?_,
    fun fd filter isList => ?_, fun defn => ?_, fun hnd =>
    eraseDups_of_nodup (nodup_orderingOf hnd)⟩
  · refine (registerOwn_mem_events hs h hno .filter).trans ?_
    rw [registerOwn_mem_nodeEffects]
    constructor
    · rintro ⟨⟨-, ⟨-, -, key, -, rfl⟩ | ⟨haug, rfl | ⟨-, rfl⟩⟩⟩, hn⟩
      · cases (hne hn : selection = .filter)
      · exact ⟨haug, by simp [nodeInputs_eq, TypeInputs.filterType]⟩
      · cases (hne (hor.symm.trans hn) : NodeInput.ordering = .filter)
    · rintro ⟨haug, rfl⟩
      refine ⟨⟨not_ignored_of_augments hs hno haug, .inr ⟨haug, .inl ?_⟩⟩, rfl⟩
      simp [nodeInputs_eq, TypeInputs.filterType]
  · simp [propertyFilters, hca, FilterOp.applies, Function.comp_def]
  · cases isList <;> simp [relationFilters, FilterOp.ofRelation, operatorName, FilterOp.word,
      String.append_assoc]
  · refine (registerOwn_mem_events hs h hno .ordering).trans ?_
    rw [registerOwn_mem_nodeEffects]
    constructor
    · rintro ⟨⟨-, ⟨-, -, key, -, rfl⟩ | ⟨haug, rfl | ⟨hvs, rfl⟩⟩⟩, hn⟩
      · cases (hne hn : selection = .ordering)
      · cases (hne (hfi.symm.trans hn) : NodeInput.filter = .ordering)
      · rw [ordering_nodeInputs, ne_eq, eraseDups_eq_nil_iff] at hvs
        exact ⟨haug, hvs, by simp [TypeInputs.orderingType, ordering_nodeInputs, hor]⟩
    · rintro ⟨haug, hvs, rfl⟩
      refine ⟨⟨not_ignored_of_augments hs hno haug, .inr ⟨haug, .inr ⟨?_, ?_⟩⟩⟩, rfl⟩
      · rwa [ordering_nodeInputs, ne_eq, eraseDups_eq_nil_iff]
      · simp [TypeInputs.orderingType, ordering_nodeInputs, hor]

end Catalog

/-- If an augmentation succeeds, then the types by which nodes are queried have exactly the members
that their fields give. -/
theorem Document.exactInputs_of_augment {cfg : Settings} {doc augmented : Document}
    (h : (augment cfg doc).outcome = .ok augmented) :
    ∃ catalog, (Catalog.ofDocument cfg doc).outcome = .ok catalog ∧
      ∀ owner ∈ catalog.nodes, catalog.HasExactInputs owner := by
  obtain ⟨catalog, hcat, haug⟩ := Run.bind_ok_iff.mp h
  exact ⟨catalog, hcat, fun _ => Catalog.hasExactInputs (Catalog.isSorted_of_ok hcat) haug⟩

/-- The books of a library and their authors. -/
theorem library_exact_inputs : ∃ augmented, (augment {} libraryDocument).outcome = .ok augmented ∧
    ∃ catalog, (Catalog.ofDocument {} libraryDocument).outcome = .ok catalog ∧
      ∀ owner ∈ catalog.nodes, catalog.HasExactInputs owner := by
  obtain ⟨augmented, h⟩ := Run.exists_of_isOk
    (by decide +kernel : (augment {} libraryDocument).outcome.isOk)
  exact ⟨augmented, h, exactInputs_of_augment h⟩

/-- Reviews whose stars are declared again by an extension. -/
def reviewDocument : Document :=
  [.object "Review" [.one "stars" "Int"], .extend "Review" [.one "stars" "Int"]]

/-- Reviews are ordered by what their fields give, but a value that is given twice is there once. -/
theorem repeated_values_left_out : ∃ catalog, (Catalog.ofDocument {} reviewDocument).outcome = .ok catalog ∧
    catalog.nodes.map catalog.orderingOf =
      [["stars_asc", "stars_desc", "stars_asc", "stars_desc", "_id_asc", "_id_desc"]] ∧
    ((catalog.generated.get? "_ReviewOrdering").map fun defn =>
      match defn.body with
      | .enum vals => vals.map (·.name)
      | _ => []) = some ["stars_asc", "stars_desc", "_id_asc", "_id_desc"] :=
  Run.exists_of_any (by decide +kernel)

/-! ## Operators -/

namespace FilterOp

def all : List FilterOp :=
  [isNot, isIn, isNotIn, lt, lte, gt, gte, contains, notContains, startsWith, notStartsWith,
    endsWith, notEndsWith, distance,
    distanceLt, distanceLte, distanceGt, distanceGte, some, none, single, every]

lemma mem_all (op : FilterOp) : op ∈ all := by
  cases op <;> decide

/-- The operator that the word for another one starts with. -/
def stem? : FilterOp → Option FilterOp
  | isNotIn | notContains | notStartsWith | notEndsWith => Option.some isNot
  | distanceLt | distanceLte | distanceGt | distanceGte => Option.some distance
  | _ => Option.none

lemma word_inj : ∀ fst ∈ all, ∀ snd ∈ all, fst.word = snd.word → fst = snd := by
  decide

lemma stem?_of_dropEnd? : ∀ op ∈ all, ∀ other ∈ all,
    ∀ mid ∈ Text.dropEnd? ("_" ++ other.word) op.word, op.stem?.map word = Option.some mid := by
  decide

/-- Operators of one field: each once, and with one that starts with another also that one. -/
structure AreClosed (ops : List FilterOp) : Prop where
  nodup : ops.Nodup
  stem : ∀ op ∈ ops, ∀ stem ∈ op.stem?, stem ∈ ops

lemma areClosed_ofRelation (isList : Bool) : AreClosed (ofRelation isList) := by
  cases isList <;> exact ⟨by decide, by decide⟩

lemma areClosed_ofCategory (cfg : Settings) (info : FieldInfo) (category : Category) :
    AreClosed ((ofCategory category).filter (·.applies cfg info)) := by
  unfold applies
  generalize info.isList = isList
  generalize cfg.enablesSpatial .point = enabled
  cases category <;> cases isList <;> cases enabled <;> exact ⟨by decide, by decide⟩

end FilterOp

/-! ## Names of filters -/

/-- The names of the filters that a field gives: none, or its own and one for each of its
operators. -/
def IsFiltered (name : Name) (names : List Name) : Prop :=
  names = [] ∨ ∃ ops, FilterOp.AreClosed ops ∧ names = name :: ops.map (operatorName name)

variable {fst snd : Name} {op other : FilterOp} {names : List Name}

lemma operatorName_inj : operatorName fst op = operatorName fst other ↔ op = other := by
  simp only [operatorName, String.append_right_inj]
  exact ⟨FilterOp.word_inj op op.mem_all other other.mem_all, congrArg _⟩

lemma ne_operatorName : fst ≠ operatorName fst op := by
  intro h
  have hle := congrArg (·.toList.length) h
  simp [operatorName] at hle

/-- If filters of two fields have one name, then one of the fields is called like a filter of the
other. -/
lemma operatorName_eq_cases (h : operatorName fst op = operatorName snd other) (hne : fst ≠ snd) :
    (∃ stem ∈ op.stem?, snd = operatorName fst stem) ∨ ∃ stem ∈ other.stem?,
      fst = operatorName snd stem := by
  have hst {fst snd : Name} {op other : FilterOp} {mid : Name} (hne : fst ≠ snd)
      (hn : snd = fst ++ mid)
      (hwr : "_" ++ op.word = mid ++ ("_" ++ other.word)) : ∃ stem ∈ op.stem?,
        snd = operatorName fst stem := by
    cases hm : mid.toList with
    | nil => exact absurd (by simp [← String.toList_inj, hn, hm]) hne
    | cons c rest =>
      have hch : '_' :: op.word.toList = c :: (rest ++ ("_" ++ other.word).toList) := by
        simpa [hm] using congrArg String.toList hwr
      obtain ⟨rfl, hrs⟩ := cons.inj hch
      have hdr : Text.dropEnd? ("_" ++ other.word) op.word = some (String.ofList rest) :=
        Text.dropEnd?_eq_some_iff.mpr (by simpa [← String.toList_inj] using hrs)
      obtain ⟨stem, hs, hw⟩ := Option.map_eq_some_iff.mp
        (FilterOp.stem?_of_dropEnd? op op.mem_all other other.mem_all _ hdr)
      exact ⟨stem, hs, by simp [operatorName, hn, hw, ← String.toList_inj, hm]⟩
  rw [operatorName, operatorName, String.append_assoc, String.append_assoc] at h
  rcases Text.append_eq_append_cases h with ⟨mid, hn, hwr⟩ | ⟨mid, hn, hwr⟩
  · exact .inl (hst hne hn hwr)
  · exact .inr (hst hne.symm hn hwr)

lemma IsFiltered.nodup (h : IsFiltered fst names) : names.Nodup := by
  obtain rfl | ⟨ops, hops, rfl⟩ := h
  · exact nodup_nil
  · refine nodup_cons.mpr ⟨?_, hops.nodup.map fun _ _ => operatorName_inj.mp⟩
    rw [mem_map]
    rintro ⟨op, -, heq⟩
    exact ne_operatorName heq.symm

/-- If the filters of two fields have a name in common, then it is the name of one of the fields, or
one of the fields has the name of a filter of the other. -/
lemma IsFiltered.disjoint {os : List Name} (h : IsFiltered fst names) (ho : IsFiltered snd os)
    (hne : fst ≠ snd) (hse : snd ∈ names → snd ∉ os) (hfi : fst ∈ os → fst ∉ names) :
    Disjoint names os := by
  intro name hn hm
  obtain rfl | ⟨ops, hops, rfl⟩ := h
  · cases hn
  obtain rfl | ⟨rest, hrs, rfl⟩ := ho
  · cases hm
  obtain rfl | hn := mem_cons.mp hn
  · exact hfi hm mem_cons_self
  obtain rfl | hm := mem_cons.mp hm
  · exact hse (mem_cons_of_mem _ hn) mem_cons_self
  obtain ⟨op, hop, rfl⟩ := mem_map.mp hn
  obtain ⟨other, ho, heq⟩ := mem_map.mp hm
  obtain ⟨stem, hst, hn⟩ | ⟨stem, hst, hn⟩ := operatorName_eq_cases heq.symm hne
  · refine hse (mem_cons_of_mem _ (mem_map.mpr ⟨stem, hops.stem op hop stem hst, hn.symm⟩))
      mem_cons_self
  · refine hfi (mem_cons_of_mem _ (mem_map.mpr ⟨stem, hrs.stem other ho stem hst, hn.symm⟩))
      mem_cons_self

/-- No field with filters is called like a combinator, or like a filter of another field. -/
def FieldsApart {α : Type} (fields : List α) (name : α → Name) (names : α → List Name) : Prop :=
  ∀ field ∈ fields, "AND" ∉ names field ∧ "OR" ∉ names field ∧
    ∀ other ∈ fields, name other ∈ names field → name other ∈ names other → name other = name field

lemma nodup_filters_iff {α : Type} {fields : List α} {name : α → Name} {names : α → List Name}
    (h : ∀ fd ∈ fields, IsFiltered (name fd) (names fd)) (hnd : (fields.map name).Nodup) :
    (["AND", "OR"] ++ fields.flatMap names).Nodup ↔ FieldsApart fields name names := by
  rw [nodup_append, nodup_flatMap]
  constructor
  · rintro ⟨-, ⟨-, hpa⟩, hlo⟩ fd hf
    refine ⟨fun hm => ?_, fun hm => ?_, fun other ho hm hown => by_contra fun hne => ?_⟩
    · exact hlo _ mem_cons_self _ (mem_flatMap.mpr ⟨fd, hf, hm⟩) rfl
    · exact hlo _ (by simp) _ (mem_flatMap.mpr ⟨fd, hf, hm⟩) rfl
    · have : Std.Symm (Function.onFun Disjoint names) := ⟨fun _ _ hdi _ ho hf => hdi hf ho⟩
      exact hpa.forall hf ho (fun heq => hne (congrArg name heq.symm)) hm hown
  · intro hap
    refine ⟨by decide, ⟨fun fd hf => (h fd hf).nodup, ?_⟩, ?_⟩
    · refine (pairwise_map.mp hnd).imp_of_mem fun {fd other} hf ho hne => ?_
      refine (h fd hf).disjoint (h other ho) hne (fun hm hown => hne ?_) fun hm hown => hne ?_
      · exact ((hap fd hf).2.2 other ho hm hown).symm
      · exact (hap other ho).2.2 fd hf hm hown
    · rintro logical hl _ hm rfl
      obtain ⟨fd, hf, hm⟩ := mem_flatMap.mp hm
      obtain ⟨hand, hor, -⟩ := hap fd hf
      rcases mem_pair.mp hl with rfl | rfl
      · exact hand hm
      · exact hor hm

/-! ## Filter types -/

lemma names_filterType (name : Name) (filters : List ArgumentDef) :
    (filterType name filters).fields.map (·.name) = ["AND", "OR"] ++ filters.map (·.name) := by
  simp [filterType, logicalFilters]

lemma isFiltered_propertyFilters (cfg : Settings) (info : FieldInfo) :
    IsFiltered info.name ((propertyFilters cfg info).map (·.name)) := by
  unfold propertyFilters
  cases info.category with
  | none => exact .inl rfl
  | some category => exact .inr ⟨_, FilterOp.areClosed_ofCategory cfg info category,
      by simp [Function.comp_def]⟩

lemma isFiltered_relationFilters (fd filter : Name) (isList : Bool) :
    IsFiltered fd ((relationFilters fd filter isList).map (·.name)) :=
  .inr ⟨_, FilterOp.areClosed_ofRelation isList, by simp [relationFilters, Function.comp_def]⟩

namespace Catalog

variable {cat : Catalog} {owner defn : TypeDef} {fd : FieldDef} {rel : Relationship}
  {aug : Document}

lemma GivesFilters.isFiltered {filters : List ArgumentDef} (h : cat.GivesFilters owner fd filters) :
    IsFiltered fd.name (filters.map (·.name)) := by
  cases h with
  | property => simpa using isFiltered_propertyFilters cat.settings (fd.describe cat.types)
  | relation => exact isFiltered_relationFilters _ _ _
  | relationship => exact isFiltered_relationFilters _ _ _
  | nothing => exact .inl rfl

def NamesApartIff (filter : TypeDef) (condition : Prop) : Prop :=
  (∃ own, Event.register filter own ∈ (augmentTypes cat).events) ∧
    ((filter.fields.map (·.name)).Nodup ↔ condition)

/-- When the members of filter types have distinct names, for each way in which a filter type is
generated. -/
structure SeparatesFilters (cat : Catalog) : Prop where
  node : ∀ owner ∈ cat.nodes, cat.augments .query owner.name →
    ((cat.membersOf owner).map (·.name)).Nodup → cat.NamesApartIff (nodeInputs cat owner).filterType
      (FieldsApart (cat.membersOf owner) (·.name) fun field =>
        (fieldGain cat owner field).filters.map (·.name))
  condition : ∀ owner ∈ cat.nodes, owner.isObject → cat.augments .mutation owner.name →
    cat.settings.experimental → ((cat.membersOf owner).map (·.name)).Nodup →
    let infos := cat.fieldInfos owner.name
    let keys := uniqueKeyFields infos (primaryKey infos)
    (primaryKey infos).isSome → cat.NamesApartIff (whereInput cat.settings owner.name keys)
      (FieldsApart keys FieldInfo.name fun info => (propertyFilters cat.settings info).map (·.name))
  /-- In the filter of a relationship no property or filter of one is called like the related
  node. -/
  relationship : ∀ owner field rel, cat.Queries owner field rel →
    cat.shared? owner field.name = none → ((cat.fieldInfos rel.typeName).map (·.name)).Nodup →
    let names := fun info : FieldInfo => (info.storedFilters cat.settings).map (·.name)
    cat.NamesApartIff (rel.inputs cat.settings owner.name).filterType
      (FieldsApart rel.properties FieldInfo.name names ∧ rel.relatedField ∉ ["AND", "OR"] ++
        rel.properties.flatMap names)
  /-- Between nodes of one type there is a filter for each direction. -/
  directions : ∀ owner field rel, cat.Queries owner field rel →
    cat.shared? owner field.name = none →
    rel.isReflexive → cat.NamesApartIff rel.directionsFilter (rel.sourceField ≠ rel.targetField)

lemma separatesFilters (hs : cat.IsSorted) (h : cat.augment.outcome = .ok aug) : cat.SeparatesFilters := by
  have hge {filter : TypeDef} {condition : Prop} (hreg : cat.Registers filter)
      (hiff : (filter.fields.map (·.name)).Nodup ↔ condition) : cat.NamesApartIff filter condition := by
    obtain ⟨own, hev⟩ := (registers_iff hs).mpr hreg
    exact ⟨⟨own, (register_mem_events h).mpr hev⟩, hiff⟩
  refine ⟨fun owner hno haug hnd => hge (.filter hno haug) ?_,
    fun owner hno hobj haug hexp hnd hkey => hge (.input hno hobj haug hexp ?_) ?_,
    fun owner fd rel hq hsh hnd => hge
      (registers_of_mem_inputs hq.node hq.member hq.reaches hq.queried hsh (.inl rfl)) ?_,
    fun owner fd rel hq hsh hrefl => hge
      (registers_of_mem_inputs hq.node hq.member hq.reaches hq.queried hsh (.inr (.inr ⟨hrefl, rfl⟩))) ?_⟩
  · rw [nodeInputs_eq, TypeInputs.filterType, names_filterType, map_flatMap]
    exact nodup_filters_iff (fun fd _ => (givesFilters_fieldGain cat owner fd).isFiltered) hnd
  · exact mem_types_inputMutations.mpr (.inr ⟨hkey, .inl rfl⟩)
  · rw [whereInput, names_filterType, map_flatMap]
    refine nodup_filters_iff (fun info _ => isFiltered_propertyFilters cat.settings info)
      (nodup_names_uniqueKeyFields ?_ _)
    simpa [fieldInfos_eq (get?_of_mem_nodes hs hno), Function.comp_def] using hnd
  · rw [Relationship.inputs_eq, TypeInputs.filterType, names_filterType, map_append, map_flatMap, ← append_assoc]
    have hna : (rel.properties.map FieldInfo.name).Nodup := by
      obtain ⟨desc, ends, -, -, rfl⟩ := reached?_eq_some.mp hq.reaches.reached
      exact hnd.sublist (filter_sublist.map _)
    have hgi (info : FieldInfo) : IsFiltered info.name ((info.storedFilters cat.settings).map (·.name)) := by
      unfold storedFilters
      split
      · exact isFiltered_propertyFilters cat.settings info
      · exact .inl rfl
    rw [map_singleton, ← concat_eq_append, nodup_concat, nodup_filters_iff (fun info _ => hgi info) hna, and_comm]
  · simp [Relationship.directionsFilter]

end Catalog

/-- If an augmentation succeeds, then the members of a generated filter have distinct names exactly
if no field is called like a combinator, like a filter of another field or, in the filter of a
relationship, like the related node. -/
theorem Document.separatesFilters_of_augment {cfg : Settings} {doc augmented : Document}
    (h : (augment cfg doc).outcome = .ok augmented) :
    ∃ catalog, (Catalog.ofDocument cfg doc).outcome = .ok catalog ∧ catalog.SeparatesFilters := by
  obtain ⟨catalog, hcat, haug⟩ := Run.bind_ok_iff.mp h
  exact ⟨catalog, hcat, Catalog.separatesFilters (Catalog.isSorted_of_ok hcat) haug⟩

/-- Persons who know each other. -/
def acquaintanceDocument : Document :=
  [.object "Person" [.idField, .many "known" "Acquaintance"],
    .relation "Acquaintance" "Person" "Person"]

/-- Each way in which a filter type is generated occurs, for fields of distinct names. -/
abbrev Catalog.HasAllFilters : Prop :=
  cat.settings.experimental ∧
    (∃ owner ∈ cat.nodes, owner.isObject ∧ cat.augments .query owner.name ∧
      cat.augments .mutation owner.name ∧ ((cat.membersOf owner).map (·.name)).Nodup ∧
      (primaryKey (cat.fieldInfos owner.name)).isSome) ∧
    cat.SomeQueries fun owner field rel => cat.shared? owner field.name = none ∧
      ((cat.fieldInfos rel.typeName).map (·.name)).Nodup ∧ rel.isReflexive

/-- People who know each other have filters of all kinds. -/
theorem acquaintances_separate_filters :
    ∃ augmented, (augment { experimental := true } acquaintanceDocument).outcome = .ok augmented ∧
      ∃ catalog, (Catalog.ofDocument { experimental := true } acquaintanceDocument).outcome =
        .ok catalog ∧ catalog.SeparatesFilters ∧ catalog.HasAllFilters := by
  obtain ⟨augmented, h⟩ := Run.exists_of_isOk
    (by decide +kernel : (augment { experimental := true } acquaintanceDocument).outcome.isOk)
  obtain ⟨catalog, hcatalog, hseparates⟩ := separatesFilters_of_augment h
  obtain ⟨other, hother, hoccur⟩ :=
    Run.exists_of_any (p := Catalog.HasAllFilters) (by decide +kernel :
    (Catalog.ofDocument { experimental := true } acquaintanceDocument).outcome.toOption.any _)
  obtain rfl := Except.ok.inj (hother.symm.trans hcatalog)
  exact ⟨augmented, h, other, hother, hseparates, hoccur⟩

/-- Votes for and against, with a field that is called like a filter of another one. -/
def voteDocument : Document := [.object "Vote" [.one "for" "Boolean", .one "for_not" "Boolean"]]

-- two filters of votes have one name
example : ∃ cat, (Catalog.ofDocument {} voteDocument).outcome = .ok cat ∧
    ((cat.generated.get? "_VoteFilter").map fun defn => defn.fields.map (·.name)) =
      some ["AND", "OR", "for", "for_not", "for_not", "for_not_not"] :=
  Run.exists_of_any (by decide +kernel)

end GraphApi
