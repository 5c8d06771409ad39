import GraphApi.Proofs.Api.Closure

/-!
# The relationship API refers to types that exist

The types to which a relationship field is retyped are always defined. Its ordering and filters are
defined if it is named after its own type, or if the interface after which it is named hosts them.
Main statement: `Document.closesRelationshipApi_of_augment`.
-/

namespace GraphApi

open List Relationship Document FieldDef

/-- The members that a document gives to a type, by its definition and its extensions. -/
def Document.membersOf (doc : Document) (name : Name) : List FieldDef :=
  ((typeDefs doc).filter (·.name == name)).flatMap TypeDef.fields ++
    ((typeExts doc).filter (·.name == name)).flatMap TypeExt.fields

namespace Catalog

variable {fd : FieldDef} {cat : Catalog} {owner : TypeDef} {rel : Relationship} {name : Name}

/-- An interface whose own pass registers the input types of the relationship that a field leads
to. -/
def Hosts (cat : Catalog) (iface : Name) (field : FieldDef) : Prop :=
  ∃ defn ∈ cat.nodes, defn.name = iface ∧ ∃ member ∈ cat.membersOf defn,
    member.name = field.name ∧ member.type.base = field.type.base ∧
      (member.describe cat.types).isIgnored = false ∧
        (member.describe cat.types).isComputed = false ∧ cat.shared? defn field.name = none

/-- A queried relationship and a field of a node type that reaches it. -/
structure Queries (cat : Catalog) (owner : TypeDef) (field : FieldDef) (rel : Relationship) :
    Prop where
  node : owner ∈ cat.nodes
  member : field ∈ cat.membersOf owner
  reaches : cat.Reaches owner field rel
  queried : rel.isQueried cat

def IsHosted (cat : Catalog) (owner : TypeDef) (field : FieldDef) : Prop :=
  ∀ iface, cat.shared? owner field.name = some iface → cat.Hosts iface field

instance (cat : Catalog) (iface : Name) (field : FieldDef) : Decidable (cat.Hosts iface field) :=
  inferInstanceAs (Decidable (∃ defn ∈ cat.nodes, _))

instance (cat : Catalog) (owner : TypeDef) (field : FieldDef) :
    Decidable (cat.IsHosted owner field) :=
  inferInstanceAs (Decidable (∀ iface ∈ cat.shared? owner field.name, cat.Hosts iface field))

/-- Some field that reaches a queried relationship is related to it in a given way. -/
def SomeQueries (cat : Catalog) (related : TypeDef → FieldDef → Relationship → Prop) : Prop :=
  ∃ owner field rel, cat.Queries owner field rel ∧ related owner field rel

lemma someQueries_iff {related : TypeDef → FieldDef → Relationship → Prop} :
    cat.SomeQueries related ↔ ∃ owner ∈ cat.nodes, ∃ fd ∈ cat.membersOf owner,
      ∃ rel ∈ cat.reached? owner fd, ((fd.describe cat.types).kind = .relationship ∧
        (fd.describe cat.types).isIgnored = false ∧ (fd.describe cat.types).isComputed = false ∧
        rel.isQueried cat) ∧ related owner fd rel := by
  constructor
  · rintro ⟨owner, fd, rel, ⟨hno, hm, ⟨hk, hig, hcm, hre⟩, hq⟩, hrel⟩
    exact ⟨owner, hno, fd, hm, rel, hre, ⟨hk, hig, hcm, hq⟩, hrel⟩
  · rintro ⟨owner, hno, fd, hm, rel, hre, ⟨hk, hig, hcm, hq⟩, hrel⟩
    exact ⟨owner, fd, rel, ⟨hno, hm, ⟨hk, hig, hcm, hre⟩, hq⟩, hrel⟩

instance (cat : Catalog) (related : TypeDef → FieldDef → Relationship → Prop)
    [∀ owner field rel, Decidable (related owner field rel)] :
    Decidable (cat.SomeQueries related) :=
  decidable_of_iff' _ someQueries_iff

/-! ## Relationships of one type -/

lemma kind_describe_congr {types : NameMap TypeDef} {other : FieldDef}
    (h : fd.type.base = other.type.base) :
    (fd.describe types).kind = (other.describe types).kind := by
  unfold describe
  rw [h]
  split <;> rfl

lemma reaches_of_base_eq {other : TypeDef} {m : FieldDef} (h : cat.Reaches owner fd rel)
    (hb : m.type.base = fd.type.base) (hig : (m.describe cat.types).isIgnored = false)
    (hcm : (m.describe cat.types).isComputed = false) :
    ∃ reached, cat.Reaches other m reached ∧ reached.typeName = rel.typeName ∧
      reached.sourceType = rel.sourceType ∧ reached.targetType = rel.targetType := by
  obtain ⟨desc, ends, hg, hen, rfl⟩ := reached?_eq_some.mp h.reached
  refine ⟨describeRelationshipType cat other.name m.name desc ends.1 ends.2, ⟨?_, hig, hcm, ?_⟩,
    rfl, rfl, rfl⟩
  · rw [kind_describe_congr hb, h.kind]
  · exact reached?_eq_some.mpr ⟨desc, ends, hb ▸ hg, hen, rfl⟩

section Names

variable {cat : Catalog} {fst snd : Relationship} (ht : fst.typeName = snd.typeName)
  (hsrc : fst.sourceType = snd.sourceType) (hta : fst.targetType = snd.targetType)
include hsrc hta

lemma isReflexive_congr : fst.isReflexive = snd.isReflexive := by
  simp [isReflexive, hsrc, hta]

lemma isQueried_congr : fst.isQueried cat = snd.isQueried cat := by
  simp [isQueried, hsrc, hta]

include ht

lemma inputNames_congr (naming : Name) : fst.filterName naming = snd.filterName naming ∧
    fst.orderingName = snd.orderingName ∧ fst.directionsFilterName = snd.directionsFilterName := by
  simp [Relationship.filterName, Relationship.orderingName, directionsFilterName, ht,
    isReflexive_congr hsrc hta]

end Names

/-! ## Generated types -/

section Generated

variable {cat : Catalog} {owner : TypeDef} {fd : FieldDef} {rel : Relationship}
  (h : cat.Queries owner fd rel)
include h

lemma registers_output : ∃ defn, cat.Registers defn ∧
    defn.name = rel.outputName (cat.naming owner fd.name) := by
  refine ⟨_, registers_of_reaches h.node h.member h.reaches
    (mem_queryDefs.mpr ⟨h.queried, .inl rfl⟩), ?_⟩
  rw [describe_name]
  rfl

lemma registers_directions (hrefl : rel.isReflexive) : ∃ defn, cat.Registers defn ∧
    defn.name = rel.directionsName (cat.naming owner fd.name) := by
  refine ⟨_, registers_of_reaches h.node h.member h.reaches
    (mem_queryDefs.mpr ⟨h.queried, .inr (.inl ⟨hrefl, rfl⟩)⟩), ?_⟩
  rw [describe_name]
  rfl

lemma registers_inputs (hho : cat.IsHosted owner fd)
    (hn : name = rel.filterName (cat.naming owner fd.name) ∨ name = rel.orderingName ∨
      (rel.isReflexive ∧ name = rel.directionsFilterName)) :
      ∃ defn, cat.Registers defn ∧ defn.name = name := by
  cases hsh : cat.shared? owner fd.name with
  | none =>
    rw [naming, hsh] at hn
    exact registers_inputs_of_reaches h.node h.member h.reaches h.queried hsh hn
  | some iface =>
    -- the interface registers what its own field reaches, under the same names
    obtain ⟨defn, hno, rfl, m, hm, hmn, hb, hig, hcm, hnn⟩ := hho iface hsh
    obtain ⟨reached, hre, ht, hsrc, hta⟩ := reaches_of_base_eq h.reaches hb hig hcm
    obtain ⟨hfi, hord, hdi⟩ := inputNames_congr ht hsrc hta defn.name
    rw [naming, hsh, Option.getD_some, ← hfi, ← hord, ← hdi, ← isReflexive_congr hsrc hta] at hn
    refine registers_inputs_of_reaches hno hm hre ?_ (hmn ▸ hnn) hn
    rw [isQueried_congr hsrc hta, h.queried]

end Generated

/-! ## The whole document -/

/-- A type that needs no definition: a built-in scalar, or a temporal or spatial kind. -/
def IsBuiltin (type : Name) : Prop := (builtinCategory? (baseKind type)).isSome

/-- The relationship API of an augmented document is closed as far as its fields are hosted. -/
structure ClosesRelationshipApi (cat : Catalog) (doc aug : Document) : Prop where
  /-- A relationship field is retyped where it is declared. -/
  retyped : ∀ {owner field rel}, cat.Queries owner field rel → ∃ kind,
    (rel.retype (cat.naming owner field.name) (field.describe cat.types)).retargetIn
      cat.settings kind ∈ aug.membersOf owner.name
  output : ∀ {owner field rel}, cat.Queries owner field rel →
    rel.outputName (cat.naming owner field.name) ∈ (typeDefs aug).map (·.name)
  /-- So is the type with one field for each direction, if the ends are of one type. -/
  directions : ∀ {owner field rel}, cat.Queries owner field rel → rel.isReflexive →
    rel.directionsName (cat.naming owner field.name) ∈ (typeDefs aug).map (·.name)
  /-- The ordering, the filter and the filter that the owner gets are defined, if the field is hosted. -/
  inputs : ∀ {owner field rel}, cat.Queries owner field rel → cat.IsHosted owner field →
    rel.orderingName ∈ (typeDefs aug).map (·.name) ∧
      rel.filterName (cat.naming owner field.name) ∈ (typeDefs aug).map (·.name) ∧
      rel.ownerFilter (cat.naming owner field.name) ∈ (typeDefs aug).map (·.name)
  /-- If all relationship fields are hosted and the document refers to types that it declares, then so does the augmented
  document. -/
  references : (∀ {owner field rel}, cat.Queries owner field rel → cat.IsHosted owner field) →
    (∀ site ∈ inputSites doc, site.type ∈ cat.types.keys ∨ IsBuiltin site.type) →
    ∀ site ∈ inputSites aug,
      site.type ∈ (typeDefs aug).map (·.name) ∨ IsBuiltin site.type

lemma fieldGain_field_of_queries (h : cat.Queries owner fd rel) : (fieldGain cat owner fd).field =
    rel.retype (cat.naming owner fd.name) (fd.describe cat.types) := by
  simp [fieldGain, relationshipGain, augmented, h.reaches.ignored, h.reaches.kind,
    h.reaches.reached, h.reaches.computed, h.queried]

section Augmented

variable {cfg : Settings} {doc aug : Document} {cat : Catalog}
  (hcat : (ofDocument cfg doc).outcome = .ok cat) (h : cat.augment.outcome = .ok aug)
include hcat

lemma mem_inputSites_of_mem_carriedValues {value : Name × Name} (hv : value ∈ cat.carriedValues) :
    ∃ site ∈ doc.inputSites, site.type = value.2 := by
  obtain ⟨fd, hf, hv⟩ := mem_flatMap.mp hv
  obtain ⟨owner, ho, hf⟩ := mem_flatMap.mp hf
  have hown {body : TypeBody} (holder : Name) (hm : fd ∈ body.fields) :
      (⟨holder, fd.name, value.1, value.2⟩ : InputSite) ∈ body.inputSites holder := by
    refine mem_flatMap.mpr ⟨fd, hm, mem_map_of_mem (mem_append_right _ ?_)⟩
    simpa [inputValues] using hv
  rcases mem_append.mp (mem_of_mem_filter hf) with hm | hm
  · refine ⟨_, mem_append_left _ (mem_flatMap.mpr ⟨owner, ?_, hown owner.name hm⟩), rfl⟩
    exact mem_typeDefs_of_mem_values hcat ho
  · obtain ⟨extn, hx, hm⟩ := mem_flatMap.mp hm
    refine ⟨_, mem_append_right _ (mem_flatMap.mpr ⟨extn, ?_, hown extn.name hm⟩), rfl⟩
    exact mem_typeExts_of_mem_extensionsOf hcat hx

include h

lemma mem_membersOf_augmented (hno : owner ∈ cat.nodes) (hf : fd ∈ cat.membersOf owner) : ∃ kind,
    (fieldGain cat owner fd).field.retargetIn cat.settings kind ∈ aug.membersOf owner.name := by
  have hs := isSorted_of_ok hcat
  obtain ⟨hv, hin⟩ := mem_nodes.mp hno
  rcases mem_append.mp hf with hf | hf
  · refine ⟨owner.body.kind, mem_append_left _ (mem_flatMap.mpr
      ⟨_, mem_filter.mpr ⟨mem_typeDefs_augment hs h hv, by simp [TypeDef.retarget]⟩, ?_⟩)⟩
    rw [fields_augmentedType hin]
    exact mem_append_left _ (mem_map_of_mem hf)
  · obtain ⟨extn, hx, hf⟩ := mem_flatMap.mp hf
    obtain ⟨hm, hn⟩ := (mem_extensionsOf hs).mp hx
    have hg := get?_of_mem_nodes hs hno
    rw [← hn] at hg
    refine ⟨extn.body.kind, mem_append_right _ (mem_flatMap.mpr
      ⟨_, mem_filter.mpr ⟨mem_typeExts_augment hs h hm, by simp [TypeExt.retarget, hn]⟩, ?_⟩)⟩
    rw [fields_augmentedExt hg hin]
    exact mem_map_of_mem hf

lemma mem_names_of_registers (hreg : ∃ defn, cat.Registers defn ∧ defn.name = name) :
    name ∈ aug.typeDefs.map (·.name) := by
  obtain ⟨defn, hd, rfl⟩ := hreg
  exact defined_of_registers (isSorted_of_ok hcat) h hd

lemma closesRelationshipApi : cat.ClosesRelationshipApi doc aug where
  retyped := by
    intro owner fd rel hqu
    rw [← fieldGain_field_of_queries hqu]
    exact mem_membersOf_augmented hcat h hqu.node hqu.member
  output hqu := mem_names_of_registers hcat h (registers_output hqu)
  directions hqu hrefl := mem_names_of_registers hcat h (registers_directions hqu hrefl)
  inputs := by
    intro owner fd rel hqu hho
    have hin {name : Name} (hn : name = rel.filterName (cat.naming owner fd.name) ∨
        name = rel.orderingName ∨ (rel.isReflexive ∧ name = rel.directionsFilterName)) :
        name ∈ aug.typeDefs.map (·.name) :=
      mem_names_of_registers hcat h (registers_inputs hqu hho hn)
    refine ⟨hin (.inr (.inl rfl)), hin (.inl rfl), ?_⟩
    unfold ownerFilter
    split
    next hrefl => exact hin (.inr (.inr ⟨hrefl, rfl⟩))
    · exact hin (.inl rfl)
  references := by
    intro hho hdoc site hsi
    have hs := isSorted_of_ok hcat
    have hd {site : InputSite} (hsi : site ∈ doc.inputSites) :
        site.type ∈ aug.typeDefs.map (·.name) ∨ IsBuiltin site.type :=
      (hdoc site hsi).imp_left (defined_of_declared hs h)
    rcases accounts_of_mem_inputSites hcat h hsi with hac | hde | ⟨-, hca⟩
    · cases hac with
      | declared h => simp at h
      | known hkn => exact .inl (hkn.elim (defined_of_declared hs h) (defined_of_generated hs h))
      | property hpr _ => exact (declared_or_builtin hpr).imp_left (defined_of_declared hs h)
      | borrowed hbo =>
        obtain ⟨owner, hno, fd, hf, rel, iface, hre, hq, hsh, hn⟩ := hbo
        have hqu : cat.Queries owner fd rel := ⟨hno, hf, hre, hq⟩
        refine .inl (mem_names_of_registers hcat h (registers_inputs hqu (hho hqu) ?_))
        rwa [naming, hsh]
    · exact hd hde
    · obtain ⟨source, hsrc, heq⟩ := mem_inputSites_of_mem_carriedValues hcat hca
      have hfo := hd hsrc
      rwa [heq] at hfo

end Augmented

end Catalog

/-- The relationship API of an augmented document is closed as far as its fields are hosted. -/
theorem Document.closesRelationshipApi_of_augment {settings : Settings} {document augmented : Document}
    (h : (Document.augment settings document).outcome = .ok augmented) :
    ∃ catalog, (Catalog.ofDocument settings document).outcome = .ok catalog ∧
      catalog.ClosesRelationshipApi document augmented := by
  obtain ⟨catalog, hcatalog, haugment⟩ := Run.bind_ok_iff.mp h
  exact ⟨catalog, hcatalog, Catalog.closesRelationshipApi hcatalog haugment⟩

/-- An interface that hosts the types of a relationship, and a type that implements it. -/
def staffDocument : Document :=
  let members : List FieldDef := [.idField, .many "jobs" "Job"]
  [.interface "Worker" members, .object "Clerk" members ["Worker"], .object "Firm" [.idField],
   .relation "Job" "Clerk" "Firm" [.one "since" "Int"]]

/-- The jobs of a clerk are named after the interface of workers. -/
theorem staff_closes_relationship_api : ∃ augmented, (staffDocument.augment {}).outcome = .ok augmented ∧
    ∃ catalog, (Catalog.ofDocument {} staffDocument).outcome = .ok catalog ∧
      catalog.ClosesRelationshipApi staffDocument augmented := by
  obtain ⟨augmented, h⟩ := Run.exists_of_isOk
    (by decide +kernel : (staffDocument.augment {}).outcome.isOk)
  exact ⟨augmented, h, closesRelationshipApi_of_augment h⟩

/-- Two interfaces, one of which implements the other, and a type that implements both. -/
def chainDocument : Document :=
  let members : List FieldDef := [.idField, .many "f" "R"]
  [.interface "J" members, .interface "I" members ["J"], .object "D" members ["I", "J"],
   .object "E" [.idField], .relation "R" "D" "E"]

-- the field of `D` is named after `I`, whose own field is named after `J`: nothing hosts the filter that it refers to
example : ∃ cat, (Catalog.ofDocument {} chainDocument).outcome = .ok cat ∧
    (∃ defn ∈ cat.types.values, defn.name = "D" ∧ ∃ field ∈ (augmentedType cat defn).fields,
      ∃ argument ∈ field.arguments, argument.type.base = "_IRFilter") ∧
    "_IRFilter" ∉ cat.types.keys ∧ "_IRFilter" ∉ cat.generated.keys :=
  Run.exists_of_any (by decide +kernel)

end GraphApi
