import GraphApi.Proofs.Api.Contention

/-!
# The order of declarations

Documents that differ in the order of their types are augmented to documents that differ in order,
and beyond that only in what types contend for. Main statement:
`Document.sameUpToOrder_of_reorders`.
-/

namespace GraphApi

open List Document TypeBody Parts RootType

/-! ## Definitions that differ in the order of their fields -/

/-- A type with the fields of another in some order, and otherwise like it. -/
structure TypeDef.SameButOrder (defn mate : TypeDef) : Prop where
  rest : mate = defn.withFields mate.fields
  fields : mate.fields.Perm defn.fields

/-- A definition like another one; a type with one of the given names may have its fields in another
order. -/
inductive Definition.SameButOrder (names : List Name) : Definition → Definition → Prop
  | same (defn : Definition) : SameButOrder names defn defn
  | type {defn mate : TypeDef} (hname : defn.name ∈ names) (h : defn.SameButOrder mate) :
      SameButOrder names (.type defn) (.type mate)

def Document.SameButOrder (names : List Name) (doc other : Document) : Prop :=
  ∃ between : Document, doc.Perm between ∧ Forall₂ (Definition.SameButOrder names) between other

lemma TypeBody.retarget_withFields (cfg : Settings) (body : TypeBody) (fields : List FieldDef) :
    (body.withFields fields).retarget cfg = (body.retarget cfg).withFields
      (fields.map (·.retargetIn cfg body.kind)) := by
  cases body <;> rfl

lemma TypeDef.retarget_withFields (cfg : Settings) (defn : TypeDef) (fields : List FieldDef) :
    (defn.withFields fields).retarget cfg =
      (defn.retarget cfg).withFields (fields.map (·.retargetIn cfg defn.body.kind)) := by
  unfold withFields retarget
  rw [TypeBody.retarget_withFields]

lemma TypeBody.withFields_withFields (body : TypeBody) (fields os : List FieldDef) :
    (body.withFields fields).withFields (body.withFields os).fields = body.withFields os := by
  cases body <;> rfl

lemma TypeDef.withFields_withFields (defn : TypeDef) (fields os : List FieldDef) :
    (defn.withFields fields).withFields (defn.withFields os).fields = defn.withFields os := by
  unfold withFields TypeDef.fields
  rw [TypeBody.withFields_withFields]

namespace TypeDef.SameButOrder

variable {defn mate : TypeDef} (h : defn.SameButOrder mate)
include h

lemma name : mate.name = defn.name := by
  rw [h.rest, withFields_name]

lemma kind : mate.body.kind = defn.body.kind := by
  rw [h.rest]
  exact kind_withFields ..

lemma retarget (cfg : Settings) : (defn.retarget cfg).SameButOrder (mate.retarget cfg) := by
  have hfs (type : TypeDef) : (type.retarget cfg).fields =
      type.fields.map (·.retargetIn cfg type.body.kind) :=
    fields_retarget cfg type.body
  constructor
  · rw [hfs, h.kind, ← retarget_withFields, ← h.rest]
  · rw [hfs, hfs, h.kind]
    exact h.fields.map _

lemma mem_references {name : Name} : name ∈ mate.body.references ↔ name ∈ defn.body.references := by
  have hjo : mate.body.joined = defn.body.joined := by
    rw [h.rest]
    exact joined_withFields ..
  have hm {fd : FieldDef} : fd ∈ mate.body.fields ↔ fd ∈ defn.body.fields := h.fields.mem_iff
  simp only [TypeBody.mem_references, hjo, hm]

end TypeDef.SameButOrder

namespace Definition.SameButOrder

variable {names : List Name} {defn mate : Definition} (h : defn.SameButOrder names mate)
include h

lemma retarget (cfg : Settings) : (defn.retarget cfg).SameButOrder names (mate.retarget cfg) := by
  cases h with
  | same => exact .same _
  | type hn h => exact .type hn (h.retarget cfg)

lemma mem_references {name : Name} : name ∈ mate.references ↔ name ∈ defn.references := by
  cases h with
  | same => exact Iff.rfl
  | type _ h => exact h.mem_references

end Definition.SameButOrder

namespace Document.SameButOrder

variable {names : List Name} {doc other : Document} (h : Document.SameButOrder names doc other)
include h

lemma retarget (cfg : Settings) : SameButOrder names (doc.map (·.retarget cfg))
    (other.map (·.retarget cfg)) := by
  obtain ⟨between, hpr, heq⟩ := h
  refine ⟨between.map (·.retarget cfg), hpr.map _, ?_⟩
  rw [forall₂_map_left_iff, forall₂_map_right_iff]
  exact heq.imp fun defn mate h => h.retarget cfg

lemma mem_references {name : Name} : name ∈ other.references ↔ name ∈ doc.references := by
  obtain ⟨between, hpr, heq⟩ := h
  have hbe : name ∈ doc.references ↔ name ∈ between.references := (hpr.flatMap_right _).mem_iff
  rw [hbe]
  simp only [references, mem_flatMap]
  constructor
  · rintro ⟨mate, hcp, hn⟩
    obtain ⟨defn, hd, h⟩ := exists_of_forall₂ heq.flip hcp
    exact ⟨defn, hd, h.mem_references.mp hn⟩
  · rintro ⟨defn, hd, hn⟩
    obtain ⟨mate, hcp, h⟩ := exists_of_forall₂ heq hd
    exact ⟨mate, hcp, h.mem_references.mpr hn⟩

lemma names_typeDefs : (other.typeDefs.map (·.name)).Perm (doc.typeDefs.map (·.name)) := by
  obtain ⟨between, hpr, heq⟩ := h
  refine Perm.trans (Perm.of_eq ?_) ((hpr.symm.filterMap _).map _)
  clear hpr
  induction heq with
  | nil => rfl
  | @cons defn mate _ _ hhe _ ih =>
    cases hhe with
    | same => cases defn <;> simp_all [typeDefs]
    | type _ h =>
      have hn := h.name
      simp_all [typeDefs]

end Document.SameButOrder

lemma undeclaredScalars_of_sameButOrder {names : List Name} {doc other : Document}
    (h : SameButOrder names doc other) : undeclaredScalars other = undeclaredScalars doc := by
  rw [undeclaredScalars_eq, undeclaredScalars_eq]
  refine congrArg _ (filter_congr fun kind _ => ?_)
  rw [Bool.eq_iff_iff]
  simp only [Bool.and_eq_true, Bool.not_eq_true', ← Bool.not_eq_true, contains_iff_mem,
    h.mem_references, h.names_typeDefs.mem_iff]

/-- Parts in another order make up documents in another order. -/
lemma Parts.sameButOrder_document (cfg : Settings) {parts other : Parts} {names : List Name}
    (hdr : other.directives = parts.directives) (hsc : other.schema = parts.schema)
    (hts : other.types.Perm parts.types)
    (hrs : Forall₂ (fun root mate : TypeDef => root.name ∈ names ∧ root.SameButOrder mate)
      parts.roots other.roots)
    (hgen : other.generated = parts.generated) (hxs : other.extensions = parts.extensions)
    (hos : other.others = parts.others) :
    SameButOrder names (parts.document cfg) (other.document cfg) := by
  have heq (doc : Document) : Forall₂ (Definition.SameButOrder names) doc doc :=
    forall₂_same.mpr fun defn _ => .same defn
  have hb : SameButOrder names parts.body other.body := by
    refine ⟨parts.directives.map .directive ++ (parts.schema.map Definition.schema).toList ++
      other.types.map .type ++ parts.roots.map .type ++ parts.generated.map .type, ?_, ?_⟩
    · exact (((hts.symm.map _).append_left _).append_right _).append_right _
    · unfold body
      rw [hdr, hsc, hgen]
      refine rel_append (rel_append (heq _) ?_) (heq _)
      rw [forall₂_map_left_iff, forall₂_map_right_iff]
      exact hrs.imp fun root mate h => .type h.1 h.2
  have hta : other.tail = parts.tail := by
    unfold tail
    rw [hxs, hos]
  have hall : SameButOrder names (parts.body.map (·.retarget cfg) ++
      parts.tail.map (·.retarget cfg))
      (other.body.map (·.retarget cfg) ++ other.tail.map (·.retarget cfg)) := by
    obtain ⟨between, hpr, hbe⟩ := hb.retarget cfg
    rw [hta]
    exact ⟨_, hpr.append_right _, rel_append hbe (heq _)⟩
  obtain ⟨between, hpr, hbe⟩ := hb.retarget cfg
  unfold document
  dsimp only
  rw [undeclaredScalars_of_sameButOrder hall, hta]
  exact ⟨_, (hpr.append_right _).append_right _, rel_append (rel_append hbe (heq _)) (heq _)⟩

namespace Catalog

/-! ## Results side by side -/

/-- An operation type in two augmented documents. It has fields of the same names, and those that no
types contend for are the same. -/
structure SameOperation (cat : Catalog) (operation mate : OperationKind × TypeDef) : Prop where
  kind : mate.1 = operation.1
  rest : mate.2 = operation.2.withFields mate.2.fields
  names : (mate.2.fields.map (·.name)).Perm (operation.2.fields.map (·.name))
  fields : ∀ field, ¬ cat.IsContestedField operation.1 field.name →
    (field ∈ mate.2.fields ↔ field ∈ operation.2.fields)

/-- Augmented documents that differ in order, and in what types contend for. -/
structure SameUpToOrder (first second : Catalog) (aug other : Document) : Prop where
  directives : directiveDefs other = directiveDefs aug
  schemas : schemaDefs other = schemaDefs aug
  extensions : typeExts other = typeExts aug
  others : other.filter Definition.isOther = aug.filter Definition.isOther
  /-- The declared types stand in another order. The generated types have the same names, and those that no types contend for are
  the same. Scalars follow. -/
  types : ∃ decl reordered generated regenerated scalars others,
    aug.typeDefs = decl ++ first.operationTypes.map (·.2) ++ generated ++ scalars.map scalarType ∧
    other.typeDefs = reordered ++ second.operationTypes.map (·.2) ++ regenerated ++
      others.map scalarType ∧
    reordered.Perm decl ∧
    Forall₂ (fun defn mate : TypeDef => mate.name = defn.name ∧
      (¬ first.IsContested defn.name → mate = defn)) generated regenerated ∧
    Sublist scalars kindNames ∧ Sublist others kindNames
  operations : Forall₂ first.SameOperation first.operationTypes second.operationTypes
  /-- Types contend only for names that are made for different things and spell alike. -/
  contested : ∀ name, first.IsContested name → ∃ one rival, one.name = name ∧ rival.name = name ∧
    first.TypesCollide one rival
  /-- Of the fields they contend only for mutations. -/
  contestedFields : ∀ kind name, first.IsContestedField kind name →
    kind = .mutation ∧ ∃ one rival, one.name = name ∧ rival.name = name ∧
      first.MutationsCollide one rival
  /-- If they contend for nothing, only the order differs. -/
  settled : (∀ name, ¬ first.IsContested name) → (∀ kind name, ¬ first.IsContestedField kind name) →
    Document.SameButOrder (first.operationTypes.map (·.2.name)) aug other

namespace SameRoot

variable {cat : Catalog} {root mate : OperationKind × RootType} (h : cat.SameRoot root mate)
include h

lemma name : mate.2.name = root.2.name := by
  rw [RootType.name, RootType.name, h.definition]

variable (hfs : root.2.definition.body.fields?.isSome)
include hfs

lemma sameButOrder (hun : ∀ name, ¬ cat.IsContestedField root.1 name) :
    root.2.build.SameButOrder mate.2.build := by
  have hbu (fields : List FieldDef) : (root.2.definition.withFields fields).fields = fields :=
    fields_withFields (.inl hfs)
  unfold build
  rw [h.definition]
  refine ⟨(TypeDef.withFields_withFields ..).symm, ?_⟩
  rw [hbu, hbu]
  exact h.perm hun

lemma sameOperation (cfg : Settings) :
    cat.SameOperation (root.1, root.2.build.retarget cfg) (mate.1, mate.2.build.retarget cfg) := by
  have hbu (fields : List FieldDef) : ((root.2.definition.withFields fields).retarget cfg).fields =
      fields.map (·.retargetIn cfg root.2.definition.body.kind) := by
    rw [TypeDef.retarget_withFields]
    refine fields_withFields (.inl ?_)
    rw [← hfs]
    unfold TypeDef.retarget
    cases root.2.definition.body <;> rfl
  unfold build
  rw [h.definition]
  refine ⟨h.kind, ?_, ?_, fun fd hun => ?_⟩
  · rw [TypeDef.retarget_withFields, TypeDef.retarget_withFields, TypeDef.withFields_withFields]
  · rw [hbu, hbu, map_name_retargetIn, map_name_retargetIn]
    exact h.names
  · rw [hbu, hbu, mem_map, mem_map]
    refine exists_congr fun pre => and_congr_left fun hret => ?_
    rw [← hret, retargetIn_name] at hun
    exact h.fields pre hun

end SameRoot

lemma completeSchema_congr {roots os : Roots}
    (hrs : os.map (fun root => (root.1, root.2.name)) = roots.map fun root => (root.1, root.2.name))
    (hkp : (keptRoots os).map (·.2.name) = (keptRoots roots).map (·.2.name)) :
    completeSchema os = completeSchema roots := by
  funext schema
  have hadd (es : Roots) (keeps : OperationKind × Name → Bool) :
      (es.filter fun e => keeps (e.1, e.2.name)).map (fun e => (e.1, e.2.name)) =
        (es.map fun e => (e.1, e.2.name)).filter keeps := by
    rw [filter_map]
    rfl
  unfold completeSchema
  dsimp only
  rw [hkp]
  have hes (es : Roots) := hadd es fun e =>
    !(schema.operations.map (·.1)).contains e.1 && ((keptRoots roots).map (·.2.name)).contains e.2
  rw [hes, hes, hrs]

lemma mem_flatMap_of_find? {α β : Type} {xs : List α} {x : α} {label : β → Name} {name : Name}
    {g : α → List β} {y : β}
    (hx : x ∈ xs) (hy : (g x).find? (label · == name) = some y) :
    y ∈ xs.flatMap g ∧ label y = name :=
  ⟨mem_flatMap.mpr ⟨x, hx, mem_of_find?_eq_some hy⟩, by simpa using find?_some hy⟩

lemma typesCollide_of_isContested {cat : Catalog} {aug : Document} (hs : cat.IsSorted)
    (h : cat.augment.outcome = .ok aug) {name : Name} (hco : cat.IsContested name) :
    ∃ one rival, one.name = name ∧ rival.name = name ∧ cat.TypesCollide one rival := by
  obtain ⟨-, -, owner, how, rival, hri, res, found, hres, hfo, hdi⟩ := hco
  obtain ⟨hone, hn⟩ := mem_flatMap_of_find? how hres
  obtain ⟨ho, hon⟩ := mem_flatMap_of_find? hri hfo
  refine ⟨res.1, found.1, hn, hon, (eq_or_typesCollide hs ?_ ?_ (hn.trans hon.symm)).resolve_left
      hdi⟩ <;>
    rw [registrations_eq h]
  · exact mem_append_left _ hone
  · exact mem_append_left _ ho

lemma mutationsCollide_of_isContestedField {cat : Catalog} {aug : Document}
    (h : cat.augment.outcome = .ok aug) {kind : OperationKind} {name : Name}
    (hco : cat.IsContestedField kind name) :
    kind = .mutation ∧ ∃ one rival, one.name = name ∧ rival.name = name ∧
      cat.MutationsCollide one rival := by
  obtain ⟨-, owner, how, rival, hri, res, found, hres, hfo, hdi⟩ := hco
  obtain ⟨hone, hn⟩ := mem_flatMap_of_find? how hres
  obtain ⟨ho, hon⟩ := mem_flatMap_of_find? hri hfo
  rw [← offersTo_flatMap h] at hone ho
  obtain ⟨hmut, hcl⟩ := (eq_or_mutationsCollide hone ho (hn.trans hon.symm)).resolve_left hdi
  exact ⟨hmut, res, found, hn, hon, hcl⟩

section Compare

variable {cfg : Settings} {doc reordered : Document} {c1 c2 : Catalog}
  (h1 : (ofDocument cfg doc).outcome = .ok c1)
  (h2 : (ofDocument cfg reordered).outcome = .ok c2) (hre : c1.Reorders c2)
  {aug other : Document} (h : c1.augment.outcome = .ok aug) (ho : c2.augment.outcome = .ok other)

include h1

lemma nodup_kinds_roots : (c1.roots.map (·.1)).Nodup := by
  have hsu {es : List (OperationKind × Name × Option TypeDef)} :
      Sublist ((es.flatMap fun e => (withoutRoots cfg doc).rootsOf e.1 e.2.1 e.2.2).map (·.1))
        (es.map (·.1)) := by
    induction es with
    | nil => simp
    | cons e rest ih =>
      rw [flatMap_cons, map_append, map_cons]
      rcases (withoutRoots cfg doc).rootsOf_cases e.1 e.2.1 e.2.2 with hno | ⟨root, hr⟩
      · rw [hno]
        exact ih.cons _
      · rw [hr]
        exact ih.cons_cons _
  have hki : (declaredRoots cfg doc).map (·.1) = OperationKind.all := by
    simp [declaredRoots, rootNames, OperationKind.all, takeRoots]
  rw [ofDocument_eq h1]
  refine Nodup.sublist hsu ?_
  rw [hki]
  decide

include hre h

lemma extensions_reorders (dirs : List DirectiveDef) :
    (c2.parts dirs).extensions = (c1.parts dirs).extensions := by
  change c2.extensions.flatMap _ = c1.extensions.flatMap _
  rw [hre.extensions]
  refine flatMap_congr fun e he => map_congr_left fun extn hx => ?_
  exact augmentedExt_reorders hre h (isSorted_of_ok h1) he hx

omit h1 in
lemma types_reorders (dirs : List DirectiveDef) :
    (c2.parts dirs).types.Perm (c1.parts dirs).types := by
  have heq : c2.types.values.map (augmentedType c2) = c2.types.values.map (augmentedType c1) := by
    refine map_congr_left fun defn hd => ?_
    exact congrArg Prod.fst (augmentedType_reorders hre h (hre.values.mem_iff.mp hd)).1
  change (c2.types.values.map (augmentedType c2)).Perm (c1.types.values.map (augmentedType c1))
  rw [heq]
  exact hre.values.map _

include ho

lemma forall₂_keptRoots : Forall₂ c1.SameRoot (keptRoots c1.progress.roots)
    (keptRoots c2.progress.roots) := by
  refine rel_filter ?_ (forall₂_sameRoot hre h ho (nodup_kinds_roots h1))
  intro root mate heq
  have hem : mate.2.fields.isEmpty = root.2.fields.isEmpty := by
    have hlen := heq.names.length_eq
    rw [length_map, length_map] at hlen
    rw [Bool.eq_iff_iff, isEmpty_iff_length_eq_zero, isEmpty_iff_length_eq_zero, hlen]
  simp [heq.generated, hem]

lemma completeSchema_reorders : completeSchema c2.progress.roots =
    completeSchema c1.progress.roots := by
  refine completeSchema_congr (map_eq_of_forall₂ ?_) (map_eq_of_forall₂ ?_)
  · refine (forall₂_sameRoot hre h ho (nodup_kinds_roots h1)).imp fun root mate heq => ?_
    rw [heq.kind, heq.name]
  · exact (forall₂_keptRoots h1 hre h ho).imp fun root mate heq => heq.name

lemma forall₂_sameOperation : Forall₂ c1.SameOperation c1.operationTypes c2.operationTypes := by
  unfold operationTypes
  rw [forall₂_map_left_iff, forall₂_map_right_iff, hre.settings]
  have hkp := (forall₂_and_left _ _).mpr ⟨fun root hr => hr, forall₂_keptRoots h1 hre h ho⟩
  refine hkp.imp ?_
  rintro root mate ⟨hr, heq⟩
  exact heq.sameOperation (rootsHaveFields_of_keptRoots (isSorted_of_ok h1) hr) c1.settings

include h2

lemma sameUpToOrder : c1.SameUpToOrder c2 aug other := by
  have hs := isSorted_of_ok h1
  have hso := isSorted_of_ok h2
  obtain ⟨dirs, hdr, hau⟩ := augment_eq hs h
  obtain ⟨redirected, hrd, hao⟩ := augment_eq hso ho
  obtain rfl : redirected = dirs := Except.ok.inj (hrd.symm.trans (hre.directiveDefinitions hdr))
  have hos : (c2.parts redirected.values).others = (c1.parts redirected.values).others := hre.others
  have hsc : (c2.parts redirected.values).schema = (c1.parts redirected.values).schema := by
    change c2.schema.map _ = c1.schema.map _
    rw [hre.schema, completeSchema_reorders h1 hre h ho]
  have hxs := extensions_reorders h1 hre h redirected.values
  rw [hre.settings] at hao
  have hoo : ∀ defn ∈ (c2.parts redirected.values).others, defn.isOther := hso.others
  constructor
  case directives =>
    rw [hau, hao, directiveDefs_document _ hoo, directiveDefs_document _ hs.others]
    rfl
  case schemas =>
    rw [hau, hao, schemaDefs_document _ hoo, schemaDefs_document _ hs.others, hsc]
  case extensions =>
    rw [hau, hao, typeExts_document _ hoo, typeExts_document _ hs.others, hxs]
  case others =>
    rw [hau, hao, others_document _ hoo, others_document _ hs.others, hos]
  case types =>
    have hsl (parts : Parts) : ∃ scalars, parts.scalars c1.settings = scalars.map scalarType ∧
        Sublist scalars kindNames := by
      exact ⟨_, rfl, filter_sublist⟩
    obtain ⟨scalars, hse, hss⟩ := hsl (c1.parts redirected.values)
    obtain ⟨os, hoe, hosu⟩ := hsl (c2.parts redirected.values)
    have hops (cat : Catalog) : cat.operationTypes.map (·.2) =
        ((keptRoots cat.progress.roots).map (·.2.build)).map (·.retarget cat.settings) := by
      rw [operationTypes, map_map, map_map]
      rfl
    refine ⟨_, _, (keptTypes c1.types c1.generated).map (·.retarget c1.settings),
      (keptTypes c2.types c2.generated).map (·.retarget c1.settings), scalars, os, ?_, ?_,
      (types_reorders hre h redirected.values).map (·.retarget c1.settings), ?_, hss, hosu⟩
    · rw [hau, typeDefs_document _ hs.others, hse, hops, map_append, map_append]
      rfl
    · rw [hao, typeDefs_document _ hoo, hoe, hops, map_append, map_append, hre.settings]
      rfl
    · rw [forall₂_map_left_iff, forall₂_map_right_iff]
      refine (forall₂_keptTypes_reorders hre h ho hs hso).imp fun defn mate heq => ?_
      exact ⟨heq.1, fun hun => by rw [heq.2 hun]⟩
  case operations => exact forall₂_sameOperation h1 hre h ho
  case contested => exact fun name => typesCollide_of_isContested hs h
  case contestedFields => exact fun kind name => mutationsCollide_of_isContestedField h
  case settled =>
    intro hun huf
    rw [hau, hao]
    refine sameButOrder_document c1.settings rfl hsc (types_reorders hre h redirected.values) ?_ ?_ hxs hos
    · change Forall₂ _ ((keptRoots c1.progress.roots).map (·.2.build)) ((keptRoots c2.progress.roots).map (·.2.build))
      rw [forall₂_map_left_iff, forall₂_map_right_iff]
      have hkp := (forall₂_and_left _ _).mpr ⟨fun root hr => hr, forall₂_keptRoots h1 hre h ho⟩
      refine hkp.imp ?_
      rintro root mate ⟨hr, heq⟩
      refine ⟨?_, heq.sameButOrder (rootsHaveFields_of_keptRoots hs hr) (huf root.1)⟩
      rw [operationTypes, map_map]
      exact mem_map_of_mem hr
    · -- without contested names the generated types are the same
      have hgen : (keptTypes c2.types c2.generated).map id = (keptTypes c1.types c1.generated).map id := by
        refine map_eq_of_forall₂ ((forall₂_keptTypes_reorders hre h ho hs hso).imp ?_)
        exact fun defn mate heq => heq.2 (hun defn.name)
      rwa [map_id, map_id] at hgen

end Compare

end Catalog

/-- Documents that differ in the order of their types are augmented both or not at all. What comes
of them differs in order, and beyond that only in the generated types and mutations that types
contend for. -/
theorem Document.sameUpToOrder_of_reorders {settings : Settings} {document reordered : Document}
    (hreorders : Document.Reorders document reordered) (hnodup : ((Document.typeDefs document).map (·.name)).Nodup) :
    ((∃ augmented, (Document.augment settings document).outcome = .ok augmented) ↔
      ∃ augmented, (Document.augment settings reordered).outcome = .ok augmented) ∧
    ∀ augmented other, (Document.augment settings document).outcome = .ok augmented →
      (Document.augment settings reordered).outcome = .ok other →
      ∃ first second, (Catalog.ofDocument settings document).outcome = .ok first ∧
        (Catalog.ofDocument settings reordered).outcome = .ok second ∧ first.SameUpToOrder second augmented other := by
  have hsucceeds {one two : Document} (hboth : Document.Reorders one two)
      (hone : (one.typeDefs.map (·.name)).Nodup)
      (h : ∃ augmented, (augment settings one).outcome = .ok augmented) :
      ∃ augmented, (Document.augment settings two).outcome = .ok augmented := by
    obtain ⟨augmented, h⟩ := h
    obtain ⟨catalog, hcatalog, haugment⟩ := Run.bind_ok_iff.mp h
    obtain ⟨other, hother, hcatalogs⟩ := Catalog.reorders_of_ofDocument hboth hone hcatalog
    obtain ⟨result, hresult⟩ := hcatalogs.augment_isOk ⟨augmented, haugment⟩
    exact ⟨result, Run.bind_ok_iff.mpr ⟨other, hother, hresult⟩⟩
  refine ⟨⟨hsucceeds hreorders hnodup, ?_⟩, ?_⟩
  · exact hsucceeds hreorders.symm ((hreorders.types.map _).nodup_iff.mpr hnodup)
  · intro augmented other h hother
    obtain ⟨first, hfirst, haugment⟩ := Run.bind_ok_iff.mp h
    obtain ⟨second, hsecond, haugmentOther⟩ := Run.bind_ok_iff.mp hother
    obtain ⟨found, hfound, hcatalogs⟩ := Catalog.reorders_of_ofDocument hreorders hnodup hfirst
    obtain rfl : found = second := Except.ok.inj (hfound.symm.trans hsecond)
    exact ⟨first, found, hfirst, hsecond,
      Catalog.sameUpToOrder hfirst hsecond hcatalogs haugment haugmentOther⟩

/-- Reviews, which both ends declare through an interface. -/
def reviewTypes : List TypeDef :=
  let members : List FieldDef := [.idField, .many "reviews" "Review"]
  [{ name := "Movie", body := .object ["Reviewed"] members },
   { name := "Reviewed", body := .interface [] [.many "reviews" "Review"] },
   { name := "User", body := .object ["Reviewed"] members },
   { name := "Review", directives := [.relation "REVIEWED"]
     body := .object [] [.one "from" "User", .one "to" "Movie", .one "stars" "Int"] }]

/-- Reviews by users and of movies, in one order and in the reverse one. -/
theorem reviews_sameUpToOrder :
    Document.Reorders (reviewTypes.map .type) (reviewTypes.reverse.map .type) ∧
      ((Document.typeDefs (reviewTypes.map .type)).map (·.name)).Nodup ∧
      ∃ augmented other, (Document.augment {} (reviewTypes.map .type)).outcome = .ok augmented ∧
        (Document.augment {} (reviewTypes.reverse.map .type)).outcome = .ok other ∧
        ∃ first second, (Catalog.ofDocument {} (reviewTypes.map .type)).outcome = .ok first ∧
          (Catalog.ofDocument {} (reviewTypes.reverse.map .type)).outcome = .ok second ∧
          first.SameUpToOrder second augmented other := by
  have hreorders : Document.Reorders (reviewTypes.map .type) (reviewTypes.reverse.map .type) :=
    ⟨reverse_perm reviewTypes, rfl⟩
  have hnodup : ((typeDefs (reviewTypes.map .type)).map (·.name)).Nodup := by decide
  obtain ⟨augmented, h⟩ := Run.exists_of_isOk
    (by decide +kernel : (augment {} (reviewTypes.map .type)).outcome.isOk)
  obtain ⟨hboth, hsame⟩ := sameUpToOrder_of_reorders hreorders hnodup
  obtain ⟨other, hother⟩ := hboth.mp ⟨augmented, h⟩
  exact ⟨hreorders, hnodup, augmented, other, h, hother, hsame augmented other h hother⟩

/-- The two ends contend for the type of the reviews of the interface: it leads to the far end of
the one that comes first. -/
example :
    (∃ cat, (Catalog.ofDocument {} (reviewTypes.map .type)).outcome = .ok cat ∧
      ((cat.generated.get? "_ReviewedReviews").map fun defn => defn.fields.map (·.name)) =
        some ["stars", "_id", "User"]) ∧
    ∃ cat, (Catalog.ofDocument {} (reviewTypes.reverse.map .type)).outcome = .ok cat ∧
      ((cat.generated.get? "_ReviewedReviews").map fun defn => defn.fields.map (·.name)) =
        some ["stars", "_id", "Movie"] :=
  ⟨Run.exists_of_any (by decide +kernel), Run.exists_of_any (by decide +kernel)⟩

end GraphApi
