import GraphApi.Proofs.Api.References

/-!
# Documents with their types in another order

A pass over a type looks types up by name and never asks where they stand, so catalogs that find the
same under every name are treated alike (`Catalog.Agrees.augmentType`,
`Catalog.Agrees.augmentRoot`). The catalog of a document whose types stand in another order holds
the same, with its types in another order (`Catalog.reorders_of_ofDocument`), and augmenting it
succeeds or fails alike (`Catalog.augment_isOk_iff`).
-/

namespace GraphApi

/-! ## Catalogs that agree -/

section Types

variable {m1 m2 : NameMap TypeDef} (h : ∀ name, m2.get? name = m1.get? name)
include h

lemma categoryOf_congr (name : Name) : categoryOf m2 name = categoryOf m1 name := by
  unfold categoryOf
  rw [h]

lemma kindOf_congr (name : Name) : kindOf m2 name = kindOf m1 name := by
  unfold kindOf
  rw [h]

lemma FieldDef.describe_congr (fd : FieldDef) : fd.describe m2 = fd.describe m1 := by
  unfold describe
  rw [categoryOf_congr h, kindOf_congr h]

lemma checkRoleType_congr : checkRoleType m2 = checkRoleType m1 := by
  unfold checkRoleType
  rw [h]

end Types

namespace Catalog

/-- Catalogs that find the same type under every name and agree in what else a pass over a type asks
for. -/
structure Agrees (first second : Catalog) : Prop where
  settings : second.settings = first.settings
  types : ∀ name, second.types.get? name = first.types.get? name
  extensions : second.extensions = first.extensions
  roots : second.roots = first.roots

namespace Agrees

variable {c1 c2 : Catalog} (h : c1.Agrees c2)
include h

/-! ## Questions about types -/

variable (kind : OperationKind) (type : Name) (defn : TypeDef) (isInput : Bool) (info : FieldInfo)
  (rel : Relationship)

lemma extensionsOf : c2.extensionsOf type = c1.extensionsOf type := by
  unfold Catalog.extensionsOf
  rw [h.extensions]

lemma root? : c2.root? kind = c1.root? kind := by
  unfold Catalog.root?
  rw [h.roots]

lemma operationOf? : c2.operationOf? type = c1.operationOf? type := by
  unfold Catalog.operationOf?
  rw [h.roots]

lemma isExternal : c2.isExternal type = c1.isExternal type := by
  unfold Catalog.isExternal NameMap.contains
  rw [h.types, h.extensions]

lemma isObject : c2.isObject type = c1.isObject type := by
  unfold Catalog.isObject
  rw [h.types]

lemma augments : c2.augments kind type = c1.augments kind type := by
  unfold Catalog.augments
  rw [h.root?, h.isExternal, h.types, h.settings]

lemma describe (fd : FieldDef) : fd.describe c2.types = fd.describe c1.types :=
  FieldDef.describe_congr h.types fd

lemma fieldInfos : c2.fieldInfos type = c1.fieldInfos type := by
  unfold Catalog.fieldInfos
  rw [h.types, h.extensionsOf]
  exact List.map_congr_left fun fd _ => h.describe fd

lemma canMutate : c2.canMutate type = c1.canMutate type := by
  unfold Catalog.canMutate
  rw [h.augments, h.isObject, h.fieldInfos]

lemma ordering? : c2.ordering? type = c1.ordering? type := by
  unfold Catalog.ordering? hasOrdering
  rw [h.isObject, h.fieldInfos]

lemma passAugments : Pass.augments c2 kind type = Pass.augments c1 kind type := by
  unfold Pass.augments
  rw [h.root?, h.isExternal, h.augments]

/-! ## Relationships -/

protected lemma definingInterface? (fd : Name) :
    definingInterface? c2 defn fd = definingInterface? c1 defn fd := by
  unfold definingInterface?
  simp only [h.extensionsOf, h.types]

protected lemma describeRelationshipType (owner fd : Name) (defn : TypeDef)
    (source target : FieldDef) :
    describeRelationshipType c2 owner fd defn source target =
      describeRelationshipType c1 owner fd defn source target := by
  unfold describeRelationshipType
  rw [h.fieldInfos]

lemma relationshipAugments : rel.augments c2 kind = rel.augments c1 kind := by
  unfold Relationship.augments
  simp only [h.passAugments]

protected lemma sharedInterface? (fd : Name) :
    sharedInterface? c2 defn fd = sharedInterface? c1 defn fd := by
  unfold sharedInterface?
  simp only [h.definingInterface?, h.passAugments]

protected lemma augmentRelationshipQuery : augmentRelationshipQuery c2 defn isInput info rel =
    augmentRelationshipQuery c1 defn isInput info rel := by
  unfold augmentRelationshipQuery
  simp only [h.relationshipAugments, h.sharedInterface?, h.settings]

protected lemma firstImmutable (types : List Name) :
    firstImmutable c2 types = firstImmutable c1 types := by
  induction types with
  | nil => rfl
  | cons type rest ih =>
    unfold firstImmutable Pass.canMutate
    simp only [h.passAugments, h.canMutate, ih]

protected lemma augmentRelationshipMutation :
    augmentRelationshipMutation c2 rel = augmentRelationshipMutation c1 rel := by
  unfold augmentRelationshipMutation
  simp only [h.root?, h.firstImmutable, h.settings]

/-! ## Fields -/

protected lemma augmentNodeArguments (owner : Name) (isInput : Bool) (info : FieldInfo) :
    augmentNodeArguments c2 owner isInput info = augmentNodeArguments c1 owner isInput info := by
  unfold augmentNodeArguments nodeArguments
  simp only [h.operationOf?, h.passAugments, h.ordering?]

protected lemma nodeRelationFilters :
    nodeRelationFilters c2 info = nodeRelationFilters c1 info := by
  unfold nodeRelationFilters
  simp only [h.passAugments]

protected lemma augmentNodeField : augmentNodeField c2 defn isInput info =
    augmentNodeField c1 defn isInput info := by
  unfold augmentNodeField
  simp only [h.augmentNodeArguments, h.nodeRelationFilters, h.augmentRelationshipMutation]

protected lemma augmentRelationshipField (desc : TypeDef) (source target : FieldDef) :
    augmentRelationshipField c2 defn isInput info desc source target =
      augmentRelationshipField c1 defn isInput info desc source target := by
  unfold augmentRelationshipField
  simp only [h.describeRelationshipType, h.augmentRelationshipQuery, h.augmentRelationshipMutation]

protected lemma augmentField (fd : FieldDef) :
    augmentField c2 defn isInput fd = augmentField c1 defn isInput fd := by
  unfold augmentField
  simp only [h.describe, h.types, h.settings, h.augmentNodeField, h.augmentRelationshipField]

protected lemma augmentBody (body : TypeBody) :
    augmentBody c2 defn body = augmentBody c1 defn body := by
  unfold augmentBody
  rw [show augmentField c2 defn body.isInput = augmentField c1 defn body.isInput from
    funext (h.augmentField defn body.isInput)]

/-! ## Types -/

protected lemma augmentNodeQuery (infos : List FieldInfo) (inputs : TypeInputs) :
    augmentNodeQuery c2 type infos inputs = augmentNodeQuery c1 type infos inputs := by
  unfold augmentNodeQuery nodeQueryField
  simp only [h.passAugments, h.ordering?, h.settings]

protected lemma augmentNodeMutations (infos : List FieldInfo) (relationships : List FieldDef) :
    augmentNodeMutations c2 type infos relationships =
      augmentNodeMutations c1 type infos relationships := by
  unfold augmentNodeMutations augmentNodeMutation
  simp only [h.passAugments, h.settings]

protected lemma augmentOperations (gains : List FieldGain) :
    augmentOperations c2 defn gains = augmentOperations c1 defn gains := by
  unfold augmentOperations
  simp only [h.fieldInfos, h.augmentNodeMutations, h.augmentNodeQuery]

protected lemma augmentNodeType : augmentNodeType c2 defn = augmentNodeType c1 defn := by
  unfold augmentNodeType
  simp only [h.fieldInfos, h.extensionsOf, h.augmentBody, h.augmentOperations]

protected theorem augmentType : augmentType c2 defn = augmentType c1 defn := by
  unfold augmentType
  simp only [h.augmentNodeType]

protected lemma augmentRootField (owner : Name) (isInput : Bool) (fd : FieldDef) :
    augmentRootField c2 owner isInput fd = augmentRootField c1 owner isInput fd := by
  unfold augmentRootField
  simp only [h.describe, h.augmentNodeArguments]

protected lemma augmentRootExtension (extn : TypeExt) :
    augmentRootExtension c2 extn = augmentRootExtension c1 extn := by
  unfold augmentRootExtension
  rw [show augmentRootField c2 extn.name extn.body.isInput =
    augmentRootField c1 extn.name extn.body.isInput from funext (h.augmentRootField _ _)]

protected theorem augmentRoot (root : RootType) : augmentRoot c2 root = augmentRoot c1 root := by
  unfold augmentRoot
  rw [show augmentRootField c2 root.name root.definition.body.isInput =
      augmentRootField c1 root.name root.definition.body.isInput from funext
      (h.augmentRootField _ _),
    show augmentRootExtension c2 = augmentRootExtension c1 from funext h.augmentRootExtension,
    h.extensionsOf]

protected lemma augmentRoots : augmentRoots c2 = augmentRoots c1 := by
  unfold augmentRoots
  simp only [h.augmentRoot, h.roots]

end Agrees

end Catalog

open NameMap List Pass Run Catalog

variable {α : Type}

def Definition.isType : Definition → Bool
  | .type _ => true
  | .operation _ | .fragment _ | .schema _ | .directive _ | .schemaExt .. | .typeExt _ => false

/-- A document with the types of another in some order, and everything else as it is there. -/
structure Document.Reorders (first second : Document) : Prop where
  types : second.typeDefs.Perm (Document.typeDefs first)
  others : second.filter (!·.isType) = first.filter (!·.isType)

lemma Document.Reorders.symm {d1 d2 : Document} (h : d1.Reorders d2) : d2.Reorders d1 :=
  ⟨h.types.symm, h.others.symm⟩

/-! ## Lookup -/

lemma Pass.exists_each_ok {β : Type} {step : α → Pass β} {items : List α}
    (h : ∀ item ∈ items, ∃ res, (step item).outcome = .ok res) :
    ∃ results, (each step items).outcome = .ok results := by
  induction items with
  | nil => exact ⟨[], rfl⟩
  | cons item rest ih =>
    obtain ⟨res, hres⟩ := h item mem_cons_self
    obtain ⟨results, hrs⟩ := ih (forall_mem_cons.mp h).2
    exact ⟨res :: results, each_ok_iff.mpr (.cons hres (each_ok_iff.mp hrs))⟩

namespace Catalog

variable {cat c1 c2 : Catalog} {cfg : Settings}

/-! ## Catalogs -/

/-- Catalogs that differ in the order of their types only. -/
structure Reorders (first second : Catalog) : Prop extends first.Agrees second where
  perm : second.types.Perm first.types
  directives : second.directives = first.directives
  schema : second.schema = first.schema
  others : second.others = first.others

lemma sorted_filter (cfg : Settings) (doc : Document) :
    { sorted cfg doc with types := [] } = sorted cfg (doc.filter (!·.isType)) := by
  induction doc using reverseRecOn with
  | nil => rfl
  | append_singleton doc defn ih =>
    rw [filter_append, sorted_concat]
    cases ht : defn.isType with
    | true =>
      rw [show [defn].filter (!·.isType) = [] by simp [ht], append_nil, ← ih]
      cases defn <;> first | rfl | cases ht
    | false =>
      rw [show [defn].filter (!·.isType) = [defn] by simp [ht], sorted_concat, ← ih]
      cases defn <;> first | rfl | cases ht

section OfDocument

variable (cfg : Settings) {d1 d2 : Document} (hre : d1.Reorders d2)
  (hnd : (d1.typeDefs.map (·.name)).Nodup)
include hre

lemma sorted_reorders : { sorted cfg d2 with types := [] } =
    { sorted cfg d1 with types := [] } := by
  rw [sorted_filter, sorted_filter, hre.others]

lemma rootNames_reorders : rootNames d2 = rootNames d1 := by
  have hsc : (sorted {} d2).schema = (sorted {} d1).schema :=
    (congrArg schema (sorted_reorders {} hre) :)
  rw [rootNames, rootNames, ← sorted_schema {}, ← sorted_schema {}, hsc]

include hnd

lemma perm_sorted_types : (sorted cfg d2).types.Perm (sorted cfg d1).types := by
  rw [sorted_types_of_nodup cfg hnd,
    sorted_types_of_nodup cfg ((hre.types.map _).nodup_iff.mpr hnd)]
  exact hre.types.map _

omit hre hnd in
lemma takeRoots_congr {types other : NameMap TypeDef}
    (h : ∀ name, other.get? name = types.get? name) (names : List Name) :
    (takeRoots other names).1 = (takeRoots types names).1 := by
  induction names generalizing types other with
  | nil => rfl
  | cons name rest ih =>
    have her (key : Name) : (other.erase name).get? key = (types.erase name).get? key := by
      rw [get?_erase, get?_erase, h]
    simp only [takeRoots, h, ih her]

lemma declaredRoots_reorders : declaredRoots cfg d2 = declaredRoots cfg d1 := by
  have hg := get?_of_perm (perm_sorted_types cfg hre hnd) (nodup_sorted_types cfg d1)
  rw [declaredRoots, declaredRoots, rootNames_reorders hre, takeRoots_congr hg]

lemma withoutRoots_reorders : (withoutRoots cfg d1).Reorders (withoutRoots cfg d2) := by
  have hpr : (withoutRoots cfg d2).types.Perm (withoutRoots cfg d1).types := by
    unfold withoutRoots
    rw [rootNames_reorders hre]
    exact (perm_sorted_types cfg hre hnd).filter _
  have hks : (withoutRoots cfg d1).types.keys.Nodup :=
    (nodup_sorted_types cfg d1).sublist (filter_sublist.map _)
  have hs := sorted_reorders cfg hre
  exact
    { settings := (congrArg settings hs :)
      types := get?_of_perm hpr hks
      extensions := (congrArg extensions hs :)
      roots := (congrArg roots hs :)
      perm := hpr
      directives := (congrArg directives hs :)
      schema := (congrArg schema hs :)
      others := (congrArg others hs :) }

end OfDocument

lemma setUpRoots_congr {es : List (OperationKind × Name × Option TypeDef)}
    (hcr : ∀ kind, c2.createsRoot kind = c1.createsRoot kind)
    (hxd : ∀ e ∈ es, c2.extensionFieldNames e.2.1 = c1.extensionFieldNames e.2.1) :
    c2.setUpRoots es = c1.setUpRoots es := by
  induction es with
  | nil => rfl
  | cons e rest ih =>
    have hr := ih (forall_mem_cons.mp hxd).2
    unfold setUpRoots setUpRoot
    simp only [hcr, hxd e mem_cons_self, hr]

lemma Reorders.setUpRoots (h : c1.Reorders c2) (es : List (OperationKind × Name × Option TypeDef)) :
    c2.setUpRoots es = c1.setUpRoots es := by
  refine setUpRoots_congr (fun kind => ?_) fun e _ => ?_
  · unfold createsRoot hasAugmentable
    rw [h.settings, h.perm.any_eq]
  · unfold extensionFieldNames
    rw [h.extensionsOf]

/-- Reordered documents have reordered catalogs. -/
theorem reorders_of_ofDocument {d1 d2 : Document} (hre : d1.Reorders d2)
    (hnd : (d1.typeDefs.map (·.name)).Nodup) (h : (ofDocument cfg d1).outcome = .ok cat) :
    ∃ other, (ofDocument cfg d2).outcome = .ok other ∧ cat.Reorders other := by
  obtain ⟨roots, hrs, rfl⟩ := ofDocument_ok_iff.mp h
  have hb := withoutRoots_reorders cfg hre hnd
  refine ⟨_, ofDocument_ok_iff.mpr ⟨roots, ?_, rfl⟩, ?_⟩
  · rwa [declaredRoots_reorders cfg hre hnd, hb.setUpRoots]
  · exact { hb with roots := rfl }

/-! ## Success -/

/-- An augmentation succeeds if its passes and the directive definitions do. -/
theorem augment_isOk_iff : (∃ aug, cat.augment.outcome = .ok aug) ↔
    (∃ roots, (augmentRoots cat).outcome = .ok roots) ∧
      (∃ outcomes, (augmentTypes cat).outcome = .ok outcomes) ∧
      ∃ dirs, (directiveDefinitions cat.types cat.directives cat.settings).outcome = .ok dirs := by
  constructor
  · rintro ⟨aug, h⟩
    obtain ⟨_, hrs, h⟩ := bind_ok_iff.mp h
    obtain ⟨_, hts, h⟩ := bind_ok_iff.mp h
    obtain ⟨dirs, hdr, -⟩ := bind_ok_iff.mp h
    obtain ⟨roots, hrs, -⟩ := finish_ok_iff.mp hrs
    obtain ⟨outcomes, hts, -⟩ := finish_ok_iff.mp hts
    exact ⟨⟨roots, hrs⟩, ⟨outcomes, hts⟩, dirs, hdr⟩
  · rintro ⟨⟨roots, hrs⟩, ⟨outcomes, hts⟩, dirs, hdr⟩
    exact ⟨_, bind_ok_iff.mpr ⟨_, finish_ok_iff.mpr ⟨roots, hrs, rfl⟩,
      bind_ok_iff.mpr ⟨_, finish_ok_iff.mpr ⟨outcomes, hts, rfl⟩,
        bind_ok_iff.mpr ⟨dirs, hdr, bind_ok_iff.mpr ⟨(), rfl, bind_ok_iff.mpr ⟨(), rfl, rfl⟩⟩⟩⟩⟩⟩

lemma Reorders.directiveDefinitions (h : c1.Reorders c2) {dirs : NameMap DirectiveDef}
    (hok : (directiveDefinitions c1.types c1.directives c1.settings).outcome = .ok dirs) :
    (directiveDefinitions c2.types c2.directives c2.settings).outcome = .ok dirs := by
  rw [directiveDefinitions_ok_iff] at hok ⊢
  rwa [h.directives, h.settings, checkRoleType_congr h.types]

lemma Reorders.augment_isOk (h : c1.Reorders c2) (hok : ∃ aug, c1.augment.outcome = .ok aug) :
    ∃ aug, c2.augment.outcome = .ok aug := by
  obtain ⟨hrs, ⟨outcomes, hts⟩, dirs, hdr⟩ := augment_isOk_iff.mp hok
  refine augment_isOk_iff.mpr ⟨?_, ?_, dirs, h.directiveDefinitions hdr⟩
  · rwa [h.augmentRoots]
  · -- each type is passed over by itself
    have hall : ∀ defn ∈ c2.types.values, ∃ outcome, (augmentType c1 defn).outcome =
        .ok outcome := by
      intro defn hd
      have hm : defn ∈ c1.types.values := (h.perm.map _).mem_iff.mp hd
      obtain ⟨outcome, -, hout⟩ := exists_of_forall₂ (each_ok_iff.mp hts) hm
      exact ⟨outcome, hout⟩
    unfold augmentTypes
    rw [show augmentType c2 = augmentType c1 from funext h.augmentType]
    exact exists_each_ok hall

end Catalog

end GraphApi
