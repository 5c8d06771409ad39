import GraphApi.Proofs.Api.Success

/-!
# Key marks at relationships

A field that leads to a relationship carries no key mark, and neither do the members that the
definition of the relationship type declares. Members that extensions declare are not looked at.
Main statement: `Document.rejectsKeyMarks_of_augment`.
-/

namespace GraphApi

open List Run Document Pass

variable {cat : Catalog} {isInput : Bool} {defn : TypeDef} {fd : FieldDef} {info : FieldInfo}

/-! ## Checks -/

lemma checkRelationshipField_ok_iff {type : Name} :
    checkRelationshipField type fd = .ok () ↔ fd.keyMarks = [] := by
  unfold checkRelationshipField
  cases fd.keyMarks <;> simp

lemma checkRelationshipType_ok_iff {type : Name} {fields : List FieldDef} :
    checkRelationshipType type fields = .ok () ↔ ∀ m ∈ fields, m.keyMarks = [] := by
  unfold checkRelationshipType
  rw [forM_ok_iff]
  refine forall₂_congr fun m _ => ?_
  unfold checkRelationshipTypeField
  cases m.keyMarks <;> simp

/-! ## Fields -/

lemma augmentRelationshipQuery_succeeds_iff {rel : Relationship} :
    (augmentRelationshipQuery cat defn isInput info rel).Succeeds ↔
      (rel.isQueried cat → isInput = false) := by
  unfold augmentRelationshipQuery
  rw [(rel.augments_yields cat).succeeds_bind_iff]
  cases rel.isQueried cat with
  | false => simpa using succeeds_pure _
  | true =>
    simp only [Bool.not_true, Bool.false_eq_true, if_false, true_implies]
    rw [(sharedInterface?_yields cat defn rel.field).succeeds_bind_iff,
      (Yields.register _).succeeds_bind_iff]
    cases isInput with
    | true => simp [Run.Succeeds, bind_outcome]
    | false =>
      -- the rest only registers
      refine iff_of_true ?_ rfl
      cases rel.isReflexive <;> cases cat.shared? defn rel.field <;> exact ⟨_, rfl⟩

lemma augmentRelationshipField_succeeds_iff {desc : TypeDef} {source target : FieldDef} :
    (augmentRelationshipField cat defn isInput info desc source target).Succeeds ↔
      info.field.keyMarks = [] ∧ (info.isComputed = false → (∀ m ∈ desc.fields, m.keyMarks = []) ∧
        checkReadable (relationDirective desc.directives) ["name"] = .ok () ∧
        ((describeRelationshipType cat defn.name info.name desc source target).isQueried cat →
          isInput = false)) := by
  unfold augmentRelationshipField
  rw [succeeds_check_iff, mapError_schema_ok_iff, checkRelationshipField_ok_iff]
  refine and_congr_right fun _ => ?_
  cases hcm : info.isComputed with
  | true => simpa using succeeds_pure _
  | false =>
    simp only [Bool.false_eq_true, if_false, true_implies]
    rw [succeeds_check_iff, mapError_schema_ok_iff, checkRelationshipType_ok_iff,
      succeeds_check_iff,
      (Yields.note _ _).succeeds_bind_iff,
      (augmentRelationshipQuery_traces rfl rfl).succeeds_bind_iff,
      augmentRelationshipQuery_succeeds_iff]
    refine and_congr_right fun _ => and_congr_right fun _ => and_iff_left ?_
    split
    · exact succeeds_map_iff.mpr (augmentRelationshipMutation_yields cat _).succeeds
    · exact succeeds_pure _

/-! ## Catalogs that differ in the extensions of a type -/

namespace Catalog

variable {c1 c2 : Catalog}

/-- Catalogs that differ only in the extensions of one type, which is neither a node type nor an
operation type. -/
structure ExtendsAt (first second : Catalog) (name : Name) : Prop where
  settings : second.settings = first.settings
  types : second.types = first.types
  roots : second.roots = first.roots
  directives : second.directives = first.directives
  extensionsOf : ∀ other, other ≠ name → second.extensionsOf other = first.extensionsOf other
  notNode : ∀ defn ∈ first.types.values, defn.isNode → defn.name ≠ name
  notRoot : ∀ root ∈ first.roots, root.2.name ≠ name

namespace ExtendsAt

variable {name : Name} (h : c1.ExtendsAt c2 name)
include h

lemma augments (kind : OperationKind) (type : Name) :
    c2.augments kind type = c1.augments kind type := by
  unfold Catalog.augments isExternal NameMap.contains
  rw [Catalog.root?, root?, h.roots, h.types, h.settings]
  cases c1.types.get? type <;> simp

/-- Whether a field passes does not depend on the extensions of the type. -/
lemma augmentField_succeeds (hok : (augmentField c1 defn isInput fd).Succeeds) :
    (augmentField c2 defn isInput fd).Succeeds := by
  unfold augmentField at hok ⊢
  rw [h.types, h.settings]
  dsimp only at hok ⊢
  cases hig : (fd.describe c1.types).isIgnored with
  | true => exact succeeds_pure _
  | false =>
    rw [hig] at hok
    cases hk : (fd.describe c1.types).kind with
    | property | other => exact succeeds_pure _
    | node =>
      rw [hk] at hok
      exact augmentNodeField_succeeds_iff.mpr (augmentNodeField_succeeds_iff.mp hok)
    | relationship =>
      rw [hk] at hok
      cases hg : c1.types.get? (fd.describe c1.types).type with
      | none => exact succeeds_pure _
      | some desc =>
        rw [hg] at hok
        cases hen : desc.endpoints? with
        | none =>
          simp only [hen]
          exact succeeds_pure _
        | some ends =>
          simp only [hen, Bool.false_eq_true, if_false] at hok ⊢
          rw [augmentRelationshipField_succeeds_iff] at hok ⊢
          -- what the relationship is seen as differs in its properties only
          refine ⟨hok.1, fun hcm => ?_⟩
          obtain ⟨hms, hrd, hq⟩ := hok.2 hcm
          refine ⟨hms, hrd, fun hbt => hq ?_⟩
          rwa [Relationship.isQueried, h.augments, h.augments] at hbt

lemma augmentNodeType_succeeds (hd : defn ∈ c1.types.values) (hno : defn.isNode)
    (hok : (augmentNodeType c1 defn).Succeeds) : (augmentNodeType c2 defn).Succeeds := by
  have hxs := h.extensionsOf defn.name (h.notNode defn hd hno)
  rw [augmentNodeType_succeeds_iff] at hok ⊢
  obtain ⟨hchk, hb, hadd⟩ := hok
  have hbo {body : TypeBody} (hok : (augmentBody c1 defn body).Succeeds) :
      (augmentBody c2 defn body).Succeeds := by
    rw [augmentBody_succeeds_iff] at hok ⊢
    exact ⟨hok.1, fun fd hf => h.augmentField_succeeds (hok.2 fd hf)⟩
  refine ⟨?_, hbo hb, ?_⟩
  · rwa [fieldInfos, hxs, h.types]
  · rw [hxs]
    exact fun extn hx => hbo (hadd extn hx)

lemma augmentRoot_succeeds {root : OperationKind × RootType} (hr : root ∈ c1.roots)
    (hok : (augmentRoot c1 root.2).Succeeds) : (augmentRoot c2 root.2).Succeeds := by
  have hfs {owner : Name} {isInput : Bool} {fd : FieldDef}
      (hok : (augmentRootField c1 owner isInput fd).Succeeds) :
      (augmentRootField c2 owner isInput fd).Succeeds := by
    rw [augmentRootField_succeeds_iff] at hok ⊢
    rwa [h.types]
  rw [augmentRoot_succeeds_iff] at hok ⊢
  refine ⟨fun fd hf => hfs (hok.1 fd hf), ?_⟩
  rw [h.extensionsOf root.2.name (h.notRoot root hr)]
  intro extn hx
  have hadd := hok.2 extn hx
  rw [augmentRootExtension_succeeds_iff] at hadd ⊢
  exact ⟨hadd.1, fun fd hf => hfs (hadd.2 fd hf)⟩

lemma augment_succeeds (hok : c1.augment.Succeeds) : c2.augment.Succeeds := by
  rw [augment_succeeds_iff] at hok ⊢
  obtain ⟨hrs, hts, hdr⟩ := hok
  rw [h.roots, h.types, h.directives, h.settings]
  refine ⟨fun root hr => h.augmentRoot_succeeds hr (hrs root hr), fun defn hd => ?_, hdr⟩
  have ht := hts defn hd
  rw [augmentType_succeeds_iff] at ht ⊢
  exact ⟨ht.1, fun hno => h.augmentNodeType_succeeds hd hno (ht.2 hno)⟩

end ExtendsAt

lemma extendsAt_of_ofDocument {cfg : Settings} {pre after : Document} {extn : TypeExt}
    {desc : TypeDef}
    (h : (ofDocument cfg (pre ++ after)).outcome = .ok cat)
    (hg : cat.types.get? extn.name = some desc) (hno : desc.isNode = false) :
    ∃ other, (ofDocument cfg (pre ++ .typeExt extn :: after)).outcome = .ok other ∧
      cat.ExtendsAt other extn.name := by
  have hs := isSorted_of_ok h
  obtain ⟨roots, hrs, rfl⟩ := ofDocument_ok_iff.mp h
  have hts : (sorted cfg (pre ++ .typeExt extn :: after)).types =
      (sorted cfg (pre ++ after)).types := by
    simp [sorted_types, typeDefs]
  have hns : rootNames (pre ++ .typeExt extn :: after) = rootNames (pre ++ after) := by
    simp [rootNames, schemaDefs]
  have hdr : (sorted cfg (pre ++ .typeExt extn :: after)).directives =
      (sorted cfg (pre ++ after)).directives := by
    simp [sorted_directives, directiveDefs]
  have hxs (other : Name) (ho : other ≠ extn.name) :
        (sorted cfg (pre ++ .typeExt extn :: after)).extensionsOf other =
        (sorted cfg (pre ++ after)).extensionsOf other := by
    simp [sorted_extensionsOf, typeExts, Ne.symm ho]
  have hleft : (withoutRoots cfg (pre ++ .typeExt extn :: after)).types =
      (withoutRoots cfg (pre ++ after)).types := by
    unfold withoutRoots
    rw [hts, hns]
  -- what stays among the types is no operation type
  have hfr : extn.name ∉ rootNames (pre ++ after) := by
    have hkp := (mem_filter.mp (NameMap.mem_of_get? hg)).2
    simpa using hkp
  refine ⟨_, ofDocument_ok_iff.mpr ⟨roots, ?_, rfl⟩,
    ⟨by simp [withoutRoots], hleft, rfl, hdr, hxs, ?_, ?_⟩⟩
  · rw [declaredRoots, hns, hts]
    refine (setUpRoots_congr (fun kind => ?_) fun e he => ?_).symm ▸ hrs
    · unfold createsRoot hasAugmentable
      rw [hleft]
      simp [withoutRoots]
    · have hn : e.2.1 ∈ rootNames (pre ++ after) := (of_mem_zip (of_mem_zip he).2).1
      refine congrArg (flatMap _) (hxs e.2.1 fun heq => hfr ?_)
      rwa [← heq]
  · intro defn hd hin hn
    have ho := get?_of_mem_values hs hd
    rw [hn, hg] at ho
    rw [← Option.some.inj ho, hno] at hin
    cases hin
  · intro root hr hn
    have hap := hs.rootsApart root hr
    rw [hn] at hap
    exact hap (NameMap.mem_keys_of_get? hg)

/-! ## The whole document -/

/-- Where a successful augmentation has found no key marks, and where it has not looked. -/
structure RejectsKeyMarks (cat : Catalog) (cfg : Settings) (doc : Document) : Prop where
  /-- A field that leads to a relationship has none, even if it is computed. -/
  field : ∀ {owner field}, owner ∈ cat.nodes → field ∈ cat.membersOf owner →
    (field.describe cat.types).kind = .relationship → (field.describe cat.types).isIgnored = false →
      field.keyMarks = []
  /-- Nor have the members that the definition of the relationship type declares. -/
  definition : ∀ {owner field rel described}, owner ∈ cat.nodes → field ∈ cat.membersOf owner →
    cat.Reaches owner field rel → cat.types.get? field.type.base = some described →
      ∀ member ∈ described.fields, member.keyMarks = []
  /-- So no member of it has one exactly if those of its extensions have none. -/
  members : ∀ {owner field rel described}, owner ∈ cat.nodes → field ∈ cat.membersOf owner →
    cat.Reaches owner field rel → cat.types.get? field.type.base = some described →
      ((∀ member ∈ cat.membersOf described, member.keyMarks = []) ↔
        ∀ extn ∈ cat.extensionsOf described.name, ∀ member ∈ extn.fields, member.keyMarks = [])
  /-- Extensions of a relationship type are not looked at: with any more of them the augmentation succeeds too. -/
  extensions : ∀ {extn described before after}, cat.types.get? extn.name = some described →
    described.classification = some .relationship → doc = before ++ after →
      (Document.augment cfg (before ++ .typeExt extn :: after)).Succeeds

lemma augmentField_of_mem (h : cat.augment.Succeeds) {owner : TypeDef} (hno : owner ∈ cat.nodes)
    (hf : fd ∈ cat.membersOf owner) : ∃ isInput, (augmentField cat owner isInput fd).Succeeds := by
  obtain ⟨hv, hin⟩ := mem_nodes.mp hno
  obtain ⟨-, hts, -⟩ := augment_succeeds_iff.mp h
  obtain ⟨-, ht⟩ := augmentType_succeeds_iff.mp (hts owner hv)
  obtain ⟨-, hb, hxs⟩ := augmentNodeType_succeeds_iff.mp (ht hin)
  rcases mem_append.mp hf with hf | hf
  · exact ⟨_, (augmentBody_succeeds_iff.mp hb).2 fd hf⟩
  · obtain ⟨extn, hx, hf⟩ := mem_flatMap.mp hf
    exact ⟨_, (augmentBody_succeeds_iff.mp (hxs extn hx)).2 fd hf⟩

lemma keyMarks_of_succeeds (h : cat.augment.Succeeds) {owner : TypeDef} (hno : owner ∈ cat.nodes)
    (hf : fd ∈ cat.membersOf owner) (hk : (fd.describe cat.types).kind = .relationship)
    (hig : (fd.describe cat.types).isIgnored = false) :
    fd.keyMarks = [] ∧ ((fd.describe cat.types).isComputed = false →
      ∀ desc, cat.types.get? fd.type.base = some desc → ∀ m ∈ desc.fields, m.keyMarks = []) := by
  obtain ⟨isInput, hok⟩ := augmentField_of_mem h hno hf
  -- a type of this kind has its two ends
  obtain ⟨desc, hg, hcl⟩ := Option.bind_eq_some_iff.mp (FieldDef.bind_classification_of_kind.2 hk)
  obtain ⟨ends, hen⟩ : ∃ ends, desc.endpoints? = some ends := by
    unfold TypeDef.classification at hcl
    split at hcl
    · cases hcl
    · split at hcl
      next hso => exact Option.isSome_iff_exists.mp hso
      · cases hcl
  unfold augmentField at hok
  simp only [hig, hk, FieldDef.describe_type, hg, hen, Bool.false_eq_true, if_false] at hok
  obtain ⟨hown, hr⟩ := augmentRelationshipField_succeeds_iff.mp hok
  rw [FieldDef.describe_field] at hown
  refine ⟨hown, fun hcm other ho => ?_⟩
  obtain rfl := Option.some.inj (hg.symm.trans ho)
  exact (hr hcm).1

lemma rejectsKeyMarks {cfg : Settings} {doc : Document}
    (hcat : (ofDocument cfg doc).outcome = .ok cat)
    (h : cat.augment.Succeeds) : cat.RejectsKeyMarks cfg doc := by
  have hd {owner : TypeDef} {fd : FieldDef} {rel : Relationship} {desc : TypeDef}
      (hno : owner ∈ cat.nodes) (hf : fd ∈ cat.membersOf owner) (hre : cat.Reaches owner fd rel)
      (hg : cat.types.get? fd.type.base = some desc) : ∀ m ∈ desc.fields, m.keyMarks = [] :=
    (keyMarks_of_succeeds h hno hf hre.kind hre.ignored).2 hre.computed desc hg
  refine ⟨fun hno hf hk hig => (keyMarks_of_succeeds h hno hf hk hig).1, hd, ?_, ?_⟩
  · intro owner fd rel desc hno hf hre hg
    have hown := hd hno hf hre hg
    unfold membersOf
    simp only [mem_append, mem_flatMap]
    constructor
    · exact fun hall extn hx m hm => hall m (.inr ⟨extn, hx, hm⟩)
    · rintro hxs m (hm | ⟨extn, hx, hm⟩)
      · exact hown m hm
      · exact hxs extn hx m hm
  · rintro extn desc pre after hg hcl rfl
    obtain ⟨other, ho, hex⟩ := extendsAt_of_ofDocument hcat hg (by simp [TypeDef.isNode, hcl])
    exact succeeds_bind_iff.mpr ⟨other, ho, hex.augment_succeeds h⟩

end Catalog

/-- If an augmentation succeeds, then no field that leads to a relationship carries a key mark, and
no member of the definition of its type does. Extensions of that type are not looked at. -/
theorem Document.rejectsKeyMarks_of_augment {settings : Settings} {document augmented : Document}
    (h : (Document.augment settings document).outcome = .ok augmented) :
    ∃ catalog, (Catalog.ofDocument settings document).outcome = .ok catalog ∧ catalog.RejectsKeyMarks settings document := by
  obtain ⟨catalog, hcatalog, haugment⟩ := bind_ok_iff.mp h
  exact ⟨catalog, hcatalog, Catalog.rejectsKeyMarks hcatalog ⟨augmented, haugment⟩⟩

/-- Orders of buyers from shops. An extension marks the number of an order as a key. -/
def orderDocument : Document :=
  [.object "Buyer" [.idField, .many "orders" "Order"], .object "Shop" [.idField],
   .relation "Order" "Buyer" "Shop", .extend "Order" [.one "number" "Int" [] [{ name := "id" }]]]

/-- Orders whose extension has a key mark are accepted. -/
theorem orders_reject_key_marks : ∃ augmented, (orderDocument.augment {}).outcome = .ok augmented ∧
    ∃ catalog, (Catalog.ofDocument {} orderDocument).outcome = .ok catalog ∧
      catalog.RejectsKeyMarks {} orderDocument := by
  obtain ⟨augmented, h⟩ := exists_of_isOk
    (by decide +kernel : (orderDocument.augment {}).outcome.isOk)
  exact ⟨augmented, h, rejectsKeyMarks_of_augment h⟩

-- a member of the extension carries one, and it is a property of the relationship
example : ∃ cat, (Catalog.ofDocument {} orderDocument).outcome = .ok cat ∧
    (∃ extn ∈ cat.extensionsOf "Order", ∃ member ∈ extn.fields, member.keyMarks = [.id]) ∧
    ((cat.generated.get? "_BuyerOrders").map fun defn => defn.fields.map (·.name)) =
      some ["number", "_id", "Shop"] := exists_of_any (by decide +kernel)

end GraphApi
