import GraphApi.Proofs.Api.Following
import GraphApi.Proofs.Api.Standing

/-!
# Arguments of reflexive relationships

Fields that implement one field of an interface share the type with directions that their arguments
go to, and it has the arguments of the first of them only. Main statement:
`Document.redistributes_of_augment`.
-/

namespace GraphApi

open List Relationship Wrappers

/-- A type with one field for each end of a relationship, which take over the arguments of a
field. -/
structure Relationship.Spreads (rel : Relationship) (cfg : Settings) (naming : Name)
    (field : FieldDef) (defn : TypeDef) : Prop where
  names : defn.fields.map (·.name) = [rel.sourceField, rel.targetField]
  type : ∀ member ∈ defn.fields,
    member.type = retargetRef cfg storedTypeName (plainList.wrap (rel.outputName naming))
  /-- A declared ordering or filter is replaced. -/
  declared : ∀ member ∈ defn.fields, ∀ arg ∈ field.arguments, arg.name ≠ "orderBy" →
    arg.name ≠ "filter" → arg.retarget cfg ∈ member.arguments
  query : ∀ member ∈ defn.fields,
    HasQueryArguments true (some rel.orderingName) (some (rel.filterName naming)) member.arguments

lemma Relationship.Spreads.mono {rel : Relationship} {cfg : Settings} {naming : Name}
    {fd other : FieldDef} {defn : TypeDef} (h : rel.Spreads cfg naming other defn)
    (hsu : ∀ arg ∈ fd.arguments, arg ∈ other.arguments) : rel.Spreads cfg naming fd defn where
  names := h.names
  type := h.type
  declared m hm arg harg := h.declared m hm arg (hsu arg harg)
  query := h.query

namespace Catalog

variable {cat : Catalog} {owner : TypeDef} {fd : FieldDef} {rel : Relationship}

def directionsOf (cat : Catalog) (owner : TypeDef) (field : FieldDef) (rel : Relationship) :
    TypeDef :=
  rel.directionsType (cat.naming owner field.name)
    (rel.arguments (cat.naming owner field.name) (field.describe cat.types))

/-- What becomes of a field that leads to a relationship between nodes of one type, if its types are
named after a type. -/
structure Redistributes (cat : Catalog) (aug : Document) (owner : TypeDef) (field : FieldDef)
    (rel : Relationship) (naming : Name) : Prop where
  /-- The field has no arguments and refers to the type with its directions. -/
  retyped : ∃ member ∈ aug.membersOf owner.name, member.name = field.name ∧ member.arguments = [] ∧
    (cat.KeepsTo (rel.directionsName naming) rel.typeName cat.directionsOf →
      member.type = .plain (rel.directionsName naming))
  /-- If only fields of the relationship type share that type, it takes over the arguments of the first of them and no others
  but those that page, order and filter. -/
  directions : cat.KeepsTo (rel.directionsName naming) rel.typeName cat.directionsOf →
    ∃ first member seen, cat.ComesFirst (rel.directionsName naming)
      rel.typeName cat.directionsOf first member seen ∧
      aug.DefinesAs (rel.directionsName naming) fun defn =>
        rel.Spreads cat.settings naming member defn ∧
        ∀ direction ∈ defn.fields, ∀ name, name ∈ direction.arguments.map (·.name) ↔
          name ∈ member.arguments.map (·.name) ∨ name ∈ ["first", "offset", "orderBy", "filter"]
  /-- So it takes over the arguments of the field if all that share it declare them too. -/
  carried : cat.KeepsTo (rel.directionsName naming) rel.typeName cat.directionsOf →
    (∀ first member seen, cat.Queries first member seen → seen.typeName = rel.typeName →
      seen.directionsName (cat.naming first member.name) = rel.directionsName naming →
        ∀ arg ∈ field.arguments, arg ∈ member.arguments) →
    aug.DefinesAs (rel.directionsName naming) (rel.Spreads cat.settings naming field)

lemma filterName_of_isReflexive (h : rel.isReflexive) (naming : Name) :
    rel.filterName naming = NodeInput.filter.name rel.typeName := if_pos h

section Directions

variable {fst : TypeDef} {m : FieldDef} {seen : Relationship} (hse : seen.isReflexive)
include hse

lemma arguments_of_isReflexive (naming : Name) : seen.arguments naming (m.describe cat.types) =
    queryArguments m.arguments true (some seen.orderingName) (some (seen.filterName naming)) := by
  rw [arguments, hse, Bool.true_or, FieldDef.describe_field]

/-- The members of a type with directions, as another field of the relationship type registers
it. -/
lemma mem_fields_directionsOf {direction : FieldDef}
    (h : direction ∈ ((cat.directionsOf fst m seen).retarget cat.settings).fields) :
    direction.type = retargetRef cat.settings storedTypeName
      (plainList.wrap (seen.outputName (cat.naming fst m.name))) ∧
      direction.arguments = (queryArguments m.arguments true (some seen.orderingName)
        (some (seen.filterName (cat.naming fst m.name)))).map (·.retarget cat.settings) := by
  obtain ⟨decl, hd, rfl⟩ := mem_map.mp h
  rcases mem_pair.mp hd with rfl | rfl <;> exact ⟨rfl, congrArg _ (arguments_of_isReflexive hse _)⟩

/-- The type with directions that a field registers takes over its arguments, as any field of the
relationship type sees it. -/
lemma spreads_directionsOf {naming : Name} (hrefl : rel.isReflexive)
    (ht : seen.typeName = rel.typeName)
    (hen : [seen.sourceField, seen.targetField] = [rel.sourceField, rel.targetField])
    (hou : seen.outputName (cat.naming fst m.name) = rel.outputName naming) :
    rel.Spreads cat.settings naming m ((cat.directionsOf fst m seen).retarget cat.settings) where
  names := by
    rw [← hen]
    rfl
  type := by
    intro direction hdi
    rw [(mem_fields_directionsOf hse hdi).1, hou]
  declared := by
    intro direction hdi arg harg hord hfi
    rw [(mem_fields_directionsOf hse hdi).2]
    exact mem_map_of_mem (mem_queryArguments_of_mem harg hord hfi)
  query := by
    intro direction hdi
    have hqu := seen.hasQueryArguments_arguments cat.settings (cat.naming fst m.name)
      (m.describe cat.types)
    rw [arguments_of_isReflexive hse, ← (mem_fields_directionsOf hse hdi).2, hse, Bool.true_or,
      filterName_of_isReflexive hse, Relationship.orderingName, ht] at hqu
    rwa [filterName_of_isReflexive hrefl]

end Directions

section Augmented

variable {cfg : Settings} {doc aug : Document} {naming : Name}
  (hcat : (ofDocument cfg doc).outcome = .ok cat) (haug : cat.augment.outcome = .ok aug)
  (h : cat.Queries owner fd rel) (hrefl : rel.isReflexive) (hna : cat.naming owner fd.name = naming)
include hcat haug h hrefl hna

lemma Queries.retyped : ∃ m ∈ aug.membersOf owner.name, m.name = fd.name ∧ m.arguments = [] ∧
    (cat.KeepsTo (rel.directionsName naming) rel.typeName cat.directionsOf →
      m.type = .plain (rel.directionsName naming)) := by
  obtain ⟨kind, hm⟩ := mem_membersOf_augmented hcat haug h.node h.member
  rw [fieldGain_field_of_queries h, retype, if_pos hrefl, hna] at hm
  refine ⟨_, hm, ?_, ?_, fun hke => ?_⟩
  · rw [retargetIn_name, FieldDef.describe_field]
  · rw [arguments_retargetIn, map_nil]
  · rw [FieldDef.type_retargetIn_of_disabled]
    refine enabledKind?_of_keepsTo haug hke (fun _ _ _ => by simp [directionsOf, directionsType]) ?_
    change Text.startsWith "_" (_ ++ _ ++ _ ++ _)
    simp [Text.startsWith]

lemma Queries.directions (hke : cat.KeepsTo (rel.directionsName naming) rel.typeName
    cat.directionsOf) :
    ∃ fst m seen, cat.ComesFirst (rel.directionsName naming)
      rel.typeName cat.directionsOf fst m seen ∧
      aug.DefinesAs (rel.directionsName naming) fun defn => rel.Spreads cat.settings naming m defn ∧
        ∀ direction ∈ defn.fields, ∀ name, name ∈ direction.arguments.map (·.name) ↔
          name ∈ m.arguments.map (·.name) ∨ name ∈ ["first", "offset", "orderBy", "filter"] := by
  obtain ⟨fst, m, seen, h1, hdf⟩ := definitionsOf_first hcat haug hke
    (fun _ _ _ => by simp [directionsOf, directionsType]) (hna ▸ registers_directions h hrefl)
  refine ⟨fst, m, seen, h1, _, hdf, ?_⟩
  have hou : seen.outputName (cat.naming fst m.name) = rel.outputName naming :=
    (String.append_left_inj _).mp h1.name_eq
  have heq : seen.isReflexive ∧ [seen.sourceField, seen.targetField] =
      [rel.sourceField, rel.targetField] := by
    obtain ⟨desc, source, target, rfl, rfl⟩ := h.describes (isSorted_of_ok hcat) h1.queries h1.type
    exact ⟨hrefl, rfl⟩
  refine ⟨spreads_directionsOf heq.1 hrefl h1.type heq.2 hou, fun direction hdi name => ?_⟩
  rw [(mem_fields_directionsOf heq.1 hdi).2, map_map]
  have hord : seen.orderingName ≠ "" := by simp [Relationship.orderingName, orderingName]
  have hfi : seen.filterName (cat.naming fst m.name) ≠ "" := by
    simp [filterName_of_isReflexive heq.1, NodeInput.name, filterName]
  refine mem_names_queryArguments_iff.trans (or_congr_right ?_)
  simp [hord, hfi, or_assoc]

lemma redistributes : cat.Redistributes aug owner fd rel naming where
  retyped := h.retyped hcat haug hrefl hna
  directions := h.directions hcat haug hrefl hna
  carried := by
    intro hke hsh
    obtain ⟨fst, m, seen, h1, defn, hdf, hsp, -⟩ := h.directions hcat haug hrefl hna hke
    exact ⟨defn, hdf, hsp.mono (hsh fst m seen h1.queries h1.type h1.name_eq)⟩

end Augmented

end Catalog

/-- A field that leads to a relationship between nodes of one type gives its arguments to a type
with one field for each direction, unless it shares that type with a field that does not declare
them. -/
theorem Document.redistributes_of_augment {settings : Settings} {document augmented : Document}
    (h : (Document.augment settings document).outcome = .ok augmented) :
    ∃ catalog, (Catalog.ofDocument settings document).outcome = .ok catalog ∧ ∀ owner field relationship,
      catalog.Queries owner field relationship → relationship.isReflexive →
        catalog.Redistributes augmented owner field relationship (catalog.naming owner field.name) := by
  obtain ⟨catalog, hcatalog, haugment⟩ := Run.bind_ok_iff.mp h
  exact ⟨catalog, hcatalog, fun owner field relationship hqueries hreflexive =>
    Catalog.redistributes hcatalog haugment hqueries hreflexive rfl⟩

/-- Members of a network who follow each other. They share a field with an interface, and take an
argument more. -/
def networkDocument : Document :=
  [.interface "Account" [.idField, .many "follows" "Follow" [.one "since" "Int"]],
   .object "Member"
    [.idField, .many "follows" "Follow" [.one "since" "Int", .one "near" "Boolean"]] ["Account"],
   .relation "Follow" "Member" "Member"]

/-- Members follow each other, and declare an argument more than their interface. -/
theorem network_redistributes : ∃ augmented, (networkDocument.augment {}).outcome = .ok augmented ∧
    ∃ catalog, (Catalog.ofDocument {} networkDocument).outcome = .ok catalog ∧
      ∃ owner field relationship, catalog.Queries owner field relationship ∧ relationship.isReflexive ∧
        let naming := catalog.naming owner field.name
        catalog.KeepsTo (relationship.directionsName naming)
          relationship.typeName catalog.directionsOf ∧
          catalog.Redistributes augmented owner field relationship naming := by
  obtain ⟨augmented, h⟩ := Run.exists_of_isOk
    (by decide +kernel : (networkDocument.augment {}).outcome.isOk)
  obtain ⟨catalog, hcatalog, hredistributes⟩ := Document.redistributes_of_augment h
  obtain ⟨other, hother, owner, field, relationship, hqueries, hreflexive, hkeeps⟩ :=
    Run.exists_of_any (p := fun cat : Catalog => cat.SomeQueries fun owner field rel =>
      rel.isReflexive ∧
      cat.KeepsTo (rel.directionsName (cat.naming owner field.name)) rel.typeName cat.directionsOf)
      (by decide +kernel : (Catalog.ofDocument {} networkDocument).outcome.toOption.any _)
  obtain rfl := Except.ok.inj (hother.symm.trans hcatalog)
  exact ⟨augmented, h, other, hother, owner, field, relationship, hqueries, hreflexive, hkeeps,
    hredistributes owner field relationship hqueries hreflexive⟩

-- the interface registers first, and the argument that only members take is lost
example : ∃ cat, (Catalog.ofDocument {} networkDocument).outcome = .ok cat ∧
    (∃ defn ∈ cat.types.values, defn.name = "Member" ∧ ∃ field ∈ (augmentedType cat defn).fields,
      field.type.base = "_AccountFollowsDirections" ∧ field.arguments.length = 0) ∧
    ((cat.generated.get? "_AccountFollowsDirections").map fun defn =>
        defn.fields.map fun field => (field.name, field.arguments.map (·.name))) =
      some [("from", ["since", "first", "offset", "orderBy", "filter"]),
        ("to", ["since", "first", "offset", "orderBy", "filter"])] :=
  Run.exists_of_any (by decide +kernel)

end GraphApi
