import GraphApi.Proofs.Api.Following
import GraphApi.Proofs.Api.Standing

/-!
# Where relationship fields lead

A field at one end of a relationship leads to the other end, by its output type and its filter. Both
are named after an interface that declares the field too, if there is one, so a field that shares
them may lead back to its own type. Main statement: `Document.leadsAcross_of_augment`.
-/

namespace GraphApi

open List Relationship

/-- The end of a relationship that a type sees: the start from its end, and the end from anywhere
else. -/
def Relationship.otherEnd (rel : Relationship) (type : Name) : Name :=
  if type = rel.targetType then rel.sourceType else rel.targetType

/-- An output type with the properties of a relationship, the assigned identifier and the node that
a type sees. -/
def Relationship.LeadsFrom (rel : Relationship) (cfg : Settings) (type : Name) (defn : TypeDef) : Prop :=
  ∃ label, defn.fields = rel.properties.map (·.field.retargetIn cfg .object) ++
    [systemIdField, { name := label, type := retargetRef cfg storedTypeName (.plain (rel.otherEnd type)) }]

/-- A filter type that compares the node that a type sees. -/
def Relationship.FiltersFrom (rel : Relationship) (type : Name) (defn : TypeDef) : Prop :=
  ∃ member ∈ defn.fields, member.type = .plain (GraphApi.filterName (rel.otherEnd type))

lemma relatedType_describe {cat : Catalog} {owner field : Name} {desc : TypeDef}
    {source target : FieldDef} (hdiffer : source.type.base ≠ target.type.base) :
    let rel := describeRelationshipType cat owner field desc source target
    rel.relatedType = rel.otherEnd owner := by
  by_cases hend : owner = target.type.base
  · simp [describeRelationshipType, relatedType, otherEnd, hdiffer, hend]
  · simp [describeRelationshipType, relatedType, otherEnd, hend]

section Shapes

variable {rel seen : Relationship} {type : Name} {cfg : Settings}
  (hrel : seen.relatedType = rel.otherEnd type)
include hrel

lemma leadsFrom_outputType (hproperties : seen.properties = rel.properties) (name : Name) :
    rel.LeadsFrom cfg type ((seen.outputType name).retarget cfg) := by
  refine ⟨seen.relatedField, ?_⟩
  rw [← hproperties, ← hrel]
  change (_ ++ [_, _]).map _ = _
  rw [map_append, map_map]
  rfl

lemma filtersFrom_filterType (naming : Name) : rel.FiltersFrom type ((seen.inputs cfg naming).filterType.retarget cfg) := by
  let member : ArgumentDef := { name := seen.relatedField, type := .plain (filterName seen.relatedType) }
  have hmember : member ∈ (seen.inputs cfg naming).filters := mem_append_right _ (mem_singleton_self _)
  refine ⟨member.toField.retargetIn cfg .input, ?_, ?_⟩
  · exact mem_map_of_mem (mem_map_of_mem (mem_append_right _ hmember))
  · rw [FieldDef.type_retargetIn_of_disabled, ← hrel]
    · rfl
    · exact enabledKind_nodeInput cfg (by decide : NodeInput.filter ≠ .selection) seen.relatedType

end Shapes

namespace Catalog

variable {cat : Catalog} {owner : TypeDef} {field : FieldDef} {rel : Relationship}

def outputOf (cat : Catalog) (owner : TypeDef) (field : FieldDef) (rel : Relationship) : TypeDef :=
  rel.outputType (rel.outputName (cat.naming owner field.name))

/-- The filter that a type registers for a relationship under its own name, by any of its fields. -/
def filterOf (cat : Catalog) (owner : TypeDef) (_ : FieldDef) (rel : Relationship) : TypeDef :=
  (rel.inputs cat.settings owner.name).filterType

/-- A field of a node type that is one end of a relationship between two types. -/
structure Crosses (cat : Catalog) (owner : TypeDef) (field : FieldDef) (rel : Relationship) : Prop
    extends cat.Queries owner field rel where
  differ : rel.sourceType ≠ rel.targetType
  atEnd : owner.name = rel.sourceType ∨ owner.name = rel.targetType

/-- Where a field at one end of a relationship leads, if its types are named after a type. -/
structure LeadsAcross (cat : Catalog) (aug : Document) (owner : TypeDef) (field : FieldDef)
    (rel : Relationship) (naming : Name) : Prop where
  /-- A type sees the end that the owner is not, or the owner. -/
  ends : rel.otherEnd owner.name ≠ owner.name ∧
    ∀ type, rel.otherEnd type = rel.otherEnd owner.name ∨ rel.otherEnd type = owner.name
  /-- The field refers to its output type and to its filter. -/
  refers : ∃ member ∈ aug.membersOf owner.name, member.name = field.name ∧
    filterArgument (rel.filterName naming) ∈ member.arguments ∧
    (cat.KeepsTo (rel.outputName naming) rel.typeName cat.outputOf →
      member.type.base = rel.outputName naming)
  /-- If only fields of the relationship type share the output type, it leads to the end that the
  first of them sees. -/
  output : cat.KeepsTo (rel.outputName naming) rel.typeName cat.outputOf →
    ∃ first member seen, cat.ComesFirst (rel.outputName naming)
      rel.typeName cat.outputOf first member seen ∧
      aug.DefinesAs (rel.outputName naming) (rel.LeadsFrom cat.settings first.name)
  /-- The filter compares the end that the type sees after which it is named. -/
  filter : cat.KeepsTo (rel.filterName naming) rel.typeName cat.filterOf →
    cat.IsHosted owner field → aug.DefinesAs (rel.filterName naming) (rel.FiltersFrom naming)
  /-- So the field leads to the other end if all that share its types see that end. -/
  across : cat.KeepsTo (rel.outputName naming) rel.typeName cat.outputOf →
    cat.KeepsTo (rel.filterName naming) rel.typeName cat.filterOf → cat.IsHosted owner field →
    (∀ first member seen, cat.Queries first member seen → seen.typeName = rel.typeName →
      seen.outputName (cat.naming first member.name) = rel.outputName naming →
        rel.otherEnd first.name = rel.otherEnd owner.name) →
    rel.otherEnd naming = rel.otherEnd owner.name →
    aug.DefinesAs (rel.outputName naming) (rel.LeadsFrom cat.settings owner.name) ∧
      aug.DefinesAs (rel.filterName naming) (rel.FiltersFrom owner.name)

lemma Crosses.isReflexive (h : cat.Crosses owner field rel) : rel.isReflexive = false := by
  simpa [Relationship.isReflexive] using h.differ

lemma Crosses.otherEnd_cases (h : cat.Crosses owner field rel) :
    rel.otherEnd owner.name ≠ owner.name ∧
    ∀ type, rel.otherEnd type = rel.otherEnd owner.name ∨ rel.otherEnd type = owner.name := by
  have hdiffer := h.differ
  unfold otherEnd
  rcases h.atEnd with hend | hend
  · rw [hend, if_neg hdiffer]
    refine ⟨Ne.symm hdiffer, fun type => ?_⟩
    split
    · exact .inr rfl
    · exact .inl rfl
  · rw [hend, if_pos rfl]
    refine ⟨hdiffer, fun type => ?_⟩
    split
    · exact .inl rfl
    · exact .inr rfl

lemma Crosses.seen (hsorted : cat.IsSorted) (h : cat.Crosses owner field rel) {first : TypeDef}
    {member : FieldDef}
    {seen : Relationship} (hseen : cat.Queries first member seen)
    (htype : seen.typeName = rel.typeName) :
    seen.relatedType = rel.otherEnd first.name ∧ seen.properties = rel.properties ∧
      seen.isReflexive = false := by
  have hdiffer := h.differ
  have hrefl := h.isReflexive
  obtain ⟨desc, source, target, rfl, rfl⟩ := h.describes hsorted hseen htype
  exact ⟨relatedType_describe hdiffer, rfl, hrefl⟩

section Augmented

variable {cfg : Settings} {doc aug : Document} {naming : Name}
  (hcat : (ofDocument cfg doc).outcome = .ok cat) (haug : cat.augment.outcome = .ok aug)
  (h : cat.Crosses owner field rel) (hnaming : cat.naming owner field.name = naming)
include hcat haug h hnaming

lemma Crosses.refers : ∃ member ∈ aug.membersOf owner.name, member.name = field.name ∧
    filterArgument (rel.filterName naming) ∈ member.arguments ∧
    (cat.KeepsTo (rel.outputName naming) rel.typeName cat.outputOf →
      member.type.base = rel.outputName naming) := by
  obtain ⟨kind, hmember⟩ := mem_membersOf_augmented hcat haug h.node h.member
  rw [fieldGain_field_of_queries h.toQueries, retype, if_neg (by simp [h.isReflexive]),
    hnaming] at hmember
  refine ⟨_, hmember, ?_, ?_, fun hkeeps => ?_⟩
  · rw [retargetIn_name, FieldDef.describe_field]
  · rw [arguments_retargetIn]
    refine mem_of_find?_eq_some ((rel.hasQueryArguments_arguments _ _ _).filter _ rfl ?_)
    obtain ⟨type, hname⟩ := rel.filterName_eq naming
    simp [hname, NodeInput.name, filterName]
  · rw [FieldDef.type_retargetIn_of_disabled]
    · exact Wrappers.base_wrap _ _
    · rw [Wrappers.base_wrap]
      exact enabledKind?_of_keepsTo haug hkeeps (fun _ _ _ => by simp [outputOf, outputType])
        (startsWith_underscore _ _)

lemma Crosses.output (hkeeps : cat.KeepsTo (rel.outputName naming) rel.typeName cat.outputOf) :
    ∃ first member seen, cat.ComesFirst (rel.outputName naming)
      rel.typeName cat.outputOf first member seen ∧
      aug.DefinesAs (rel.outputName naming) (rel.LeadsFrom cat.settings first.name) := by
  obtain ⟨first, member, seen, hfirst, hdefined⟩ := definitionsOf_first hcat haug hkeeps
    (fun _ _ _ => by simp [outputOf, outputType]) (hnaming ▸ registers_output h.toQueries)
  obtain ⟨hrel, hproperties, -⟩ := h.seen (isSorted_of_ok hcat) hfirst.queries hfirst.type
  exact ⟨first, member, seen, hfirst, _, hdefined, leadsFrom_outputType hrel hproperties _⟩

lemma Crosses.filter (hkeeps : cat.KeepsTo (rel.filterName naming) rel.typeName cat.filterOf)
    (hhosted : cat.IsHosted owner field) :
    aug.DefinesAs (rel.filterName naming) (rel.FiltersFrom naming) := by
  have hsorted := isSorted_of_ok hcat
  obtain ⟨defn, hreg, hname⟩ := registers_inputs h.toQueries hhosted (.inl rfl)
  rw [hnaming] at hname
  obtain ⟨own, hentry⟩ := mem_registrations_of_registers haug hsorted hreg
  -- the name tells the type whose field registers the filter
  have howner {first : TypeDef} {member : FieldDef} {seen : Relationship}
      (hseen : cat.Queries first member seen)
      (htype : seen.typeName = rel.typeName)
        (hspelled : (cat.filterOf first member seen).name = rel.filterName naming) :
      first.name = naming := by
    change (seen.inputs cat.settings first.name).filterName = _ at hspelled
    rw [(relationship_inputs_names ..).1, Relationship.filterName, Relationship.filterName, htype,
      (h.seen hsorted hseen htype).2.2, h.isReflexive] at hspelled
    have heq : NodeInput.filter.name (first.name ++ _) = NodeInput.filter.name (naming ++ _) :=
      hspelled
    exact (String.append_left_inj _).mp (NodeInput.name_inj heq).2
  obtain ⟨first, member, seen, hseen, htype, rfl⟩ := hkeeps.2 _ hentry hname
  have hagree : ∀ entry ∈ cat.registrations, entry.1.name = rel.filterName naming →
      entry.1 = cat.filterOf first member seen := by
    intro entry hentry hspelled
    obtain ⟨rival, source, other, hother, hotherType, hmade⟩ := hkeeps.2 _ hentry hspelled
    rw [hmade] at hspelled ⊢
    have heq : rival.name = first.name :=
      (howner hother hotherType hspelled).trans (howner hseen htype hname).symm
    obtain ⟨desc, start, target, rfl, rfl⟩ :=
      hseen.describes hsorted hother (hotherType.trans htype.symm)
    unfold filterOf
    rw [heq]
    rfl
  refine ⟨_, definitionsOf_agreed hcat haug hkeeps.1 ⟨_, hreg, hname⟩ hagree, ?_⟩
  rw [← howner hseen htype hname]
  exact filtersFrom_filterType (h.seen hsorted hseen htype).1 _

lemma leadsAcross : cat.LeadsAcross aug owner field rel naming where
  ends := h.otherEnd_cases
  refers := h.refers hcat haug hnaming
  output := h.output hcat haug hnaming
  filter := h.filter hcat haug hnaming
  across := by
    intro houtput hfilter hhosted hshared hsees
    constructor
    · obtain ⟨first, member, seen, hfirst, defn, hdefined, hleads⟩ := h.output hcat haug hnaming houtput
      refine ⟨defn, hdefined, ?_⟩
      rwa [LeadsFrom, hshared first member seen hfirst.queries hfirst.type hfirst.name_eq] at hleads
    · obtain ⟨defn, hdefined, hfilters⟩ := h.filter hcat haug hnaming hfilter hhosted
      refine ⟨defn, hdefined, ?_⟩
      rwa [FiltersFrom, hsees] at hfilters

end Augmented

end Catalog

/-- A field at one end of a relationship leads to the other end of it, unless it shares its types
with a field that sees the relationship the other way. -/
theorem Document.leadsAcross_of_augment {settings : Settings} {document augmented : Document}
    (h : (Document.augment settings document).outcome = .ok augmented) :
    ∃ catalog, (Catalog.ofDocument settings document).outcome = .ok catalog ∧ ∀ owner field relationship,
      catalog.Crosses owner field relationship →
        catalog.LeadsAcross augmented owner field relationship (catalog.naming owner field.name) := by
  obtain ⟨catalog, hcatalog, haugment⟩ := Run.bind_ok_iff.mp h
  exact ⟨catalog, hcatalog, fun owner field relationship hcrosses =>
    Catalog.leadsAcross hcatalog haugment hcrosses rfl⟩

/-- Courses and students, which share a field for the relationship between them by an interface. -/
def enrolmentDocument : Document :=
  let members : List FieldDef := [.idField, .many "links" "Enrolment"]
  [.interface "Linked" members, .object "Student" members ["Linked"],
   .object "Course" members ["Linked"],
   .relation "Enrolment" "Student" "Course" [.one "grade" "Int"]]

/-- A field of students that shares the types of an interface, and leads to courses. -/
theorem enrolment_leads_across : ∃ augmented, (enrolmentDocument.augment {}).outcome = .ok augmented ∧
    ∃ catalog, (Catalog.ofDocument {} enrolmentDocument).outcome = .ok catalog ∧
      ∃ owner field relationship, catalog.Crosses owner field relationship ∧ catalog.IsHosted owner field ∧
        let naming := catalog.naming owner field.name
        catalog.KeepsTo (relationship.outputName naming) relationship.typeName catalog.outputOf ∧
          catalog.KeepsTo (relationship.filterName naming) relationship.typeName catalog.filterOf ∧
          catalog.LeadsAcross augmented owner field relationship naming := by
  obtain ⟨augmented, h⟩ := Run.exists_of_isOk
    (by decide +kernel : (enrolmentDocument.augment {}).outcome.isOk)
  obtain ⟨catalog, hcatalog, hleads⟩ := Document.leadsAcross_of_augment h
  obtain ⟨other, hother, owner, field, relationship, hqueries, hdiffer, hend, hhosted, hkeeps⟩ :=
    Run.exists_of_any (p := fun cat : Catalog => cat.SomeQueries fun owner field rel =>
      rel.sourceType ≠ rel.targetType ∧
        (owner.name = rel.sourceType ∨ owner.name = rel.targetType) ∧ cat.IsHosted owner field ∧
        cat.KeepsTo (rel.outputName (cat.naming owner field.name)) rel.typeName cat.outputOf ∧
        cat.KeepsTo (rel.filterName (cat.naming owner field.name)) rel.typeName cat.filterOf)
      (by decide +kernel : (Catalog.ofDocument {} enrolmentDocument).outcome.toOption.any _)
  obtain rfl := Except.ok.inj (hother.symm.trans hcatalog)
  have hcrosses : other.Crosses owner field relationship := ⟨hqueries, hdiffer, hend⟩
  exact ⟨augmented, h, other, hother, owner, field, relationship, hcrosses, hhosted,
    hkeeps.1, hkeeps.2, hleads owner field relationship hcrosses⟩

-- the interface registers first, and the field of a course leads from the course to courses
example : ∃ cat, (Catalog.ofDocument {} enrolmentDocument).outcome = .ok cat ∧
    (∃ defn ∈ cat.types.values, defn.name = "Course" ∧ ∃ field ∈ (augmentedType cat defn).fields,
      field.type.base = "_LinkedLinks" ∧ ∃ argument ∈ field.arguments, argument.type.base =
        "_LinkedEnrolmentFilter") ∧
    ((cat.generated.get? "_LinkedLinks").map fun defn => defn.fields.map (·.type.base)) =
      some ["Int", "String", "Course"] ∧
    ((cat.generated.get? "_LinkedEnrolmentFilter").bind fun defn =>
      defn.fields.getLast?.map (·.type.base)) =
      some "_CourseFilter" := Run.exists_of_any (by decide +kernel)

end GraphApi
