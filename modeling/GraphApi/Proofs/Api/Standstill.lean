import GraphApi.Proofs.Api.Following

/-!
# Nothing left to do

A catalog that follows another one without relationships is augmented to what it holds already: its
types and extensions stay (`Follows.augmentedType_settledType`, `Follows.augmentedExt_settledExt`),
nothing comes under a new name (`Follows.exists_registers`, `Follows.exists_offer`), and its passes
succeed where those over the first one did (`Follows.augmentType_succeeds`).
-/

namespace GraphApi

open List TypeDef FieldDef NameMap

lemma map_eq_self {α : Type} {change : α → α} {items : List α}
    (h : ∀ item ∈ items, change item = item) : items.map change = items :=
  (map_congr_left h).trans (map_id _)

lemma TypeBody.fields?_isSome_of_kind {body other : TypeBody} (h : other.kind = body.kind) :
    other.fields?.isSome = body.fields?.isSome := by
  cases body <;> cases other <;> first | rfl | cases h

lemma rootField_systemIdField (cat : Catalog) (owner : Name) :
    rootField cat owner systemIdField = systemIdField := by
  have hk : (systemIdField.describe cat.types).kind = .property := rfl
  simp [rootField, hk]

namespace Catalog

@[simp] lemma settledExt_name (cat : Catalog) (extn : TypeExt) :
    (cat.settledExt extn).name = extn.name :=
  augmentedExt_name cat extn

@[simp] lemma settledExt_kind (cat : Catalog) (extn : TypeExt) :
    (cat.settledExt extn).body.kind = extn.body.kind := by
  have hrs : ∀ e ∈ cat.roots, e.2.name ∈ cat.roots.map (·.2.name) := fun _ he => mem_map_of_mem he
  exact (keepsExtension_augmentedExt hrs extn).body.kind

namespace Follows

variable {defn : TypeDef} {fd : FieldDef} {extn : TypeExt} {kind : TypeKind} {isInput : Bool}

variable {c1 c2 : Catalog} (h : c1.Follows c2) (hs : c1.IsSorted) (hp : c1.IsPlain)
  (h2 : c2.IsSorted)
include h

/-! ## Members -/

include hp in
lemma mem_membersOf_settledType (hs : c1.IsSorted) (hno : defn ∈ c1.nodes)
    (hf : fd ∈ c2.membersOf (c1.settledType defn)) :
    fd = systemIdField ∨ ∃ decl ∈ c1.membersOf defn, ∃ kind, decl.IsPlain ∧
      fd = c1.settledField defn.name kind decl := by
  rw [h.membersOf_settledType hs hp hno] at hf
  rcases mem_append.mp hf with hown | hxd
  · rcases mem_append.mp hown with hown | hadd
    · obtain ⟨decl, hd, rfl⟩ := mem_map.mp hown
      exact .inr ⟨decl, mem_append_left _ hd, _, hp.members defn (mem_nodes.mp hno).1 decl hd, rfl⟩
    · exact .inl (mem_addedFields hadd)
  · obtain ⟨extn, hx, hm⟩ := mem_flatMap.mp hxd
    obtain ⟨decl, hd, rfl⟩ := mem_map.mp hm
    exact .inr ⟨decl, mem_append_right _ (mem_flatMap.mpr ⟨extn, hx, hd⟩), _,
      hp.mem_extensionsOf hx decl hd, rfl⟩

include h2

lemma value_cases (hv : defn ∈ c2.types.values) :
    (∃ decl ∈ c1.types.values, defn = c1.settledType decl) ∨ defn.classification = none := by
  have hg := get?_of_mem_values h2 hv
  cases h1 : c1.types.get? defn.name with
  | none => exact .inr (h.added _ defn hg (get?_eq_none_iff.mp h1)).1
  | some decl =>
    have hset := h.types _ decl h1
    rw [hg] at hset
    exact .inl ⟨decl, mem_map_of_mem (mem_of_get? h1), Option.some.inj hset⟩

include hp

lemma exists_node {owner : TypeDef} (how : owner ∈ c2.nodes) :
    ∃ defn ∈ c1.nodes, owner = c1.settledType defn := by
  obtain ⟨hv, hno⟩ := mem_nodes.mp how
  rcases h.value_cases h2 hv with ⟨defn, hd, rfl⟩ | ho
  · rw [settledType_isNode c1 (hp.relation defn hd)] at hno
    exact ⟨defn, mem_nodes.mpr ⟨hd, hno⟩, rfl⟩
  · simp [isNode, ho] at hno

include hs

lemma lacksRelations : c2.LacksRelations where
  types := by
    intro name defn hg
    have hv : defn ∈ c2.types.values := mem_map_of_mem (mem_of_get? hg)
    rcases h.value_cases h2 hv with ⟨decl, hd, rfl⟩ | ho
    · rw [settledType_classification c1 (hp.relation decl hd)]
      exact hp.lacksRelations.types _ decl (get?_of_mem_values hs hd)
    · simp [ho]
  members := by
    intro owner how fd hf
    obtain ⟨defn, hdef, rfl⟩ := h.exists_node hp h2 how
    rcases h.mem_membersOf_settledType hp hs hdef hf with rfl | ⟨decl, _, _, hd, rfl⟩
    · rfl
    · rw [settledField_marked]
      exact hd.relation

lemma map_fieldGain (hno : defn ∈ c1.nodes) (fields : List FieldDef)
    (hfs : ∀ fd ∈ fields, fd ∈ c2.membersOf (c1.settledType defn)) :
    fields.map (fun fd => (fieldGain c2 (c1.settledType defn) fd).field) = fields := by
  refine map_eq_self ?_
  intro fd hf
  rw [(h.lacksRelations hs hp h2).fieldGain_field, settledType_name]
  rcases h.mem_membersOf_settledType hp hs hno (hfs fd hf) with rfl | ⟨decl, _, _, hd, rfl⟩
  · exact rootField_systemIdField c2 _
  · exact h.rootField_settledField hs hp hd _ _

/-! ## Types and extensions -/

/-- A settled type is augmented to itself. -/
theorem augmentedType_settledType (hv : defn ∈ c1.types.values) :
    augmentedType c2 (c1.settledType defn) = c1.settledType defn := by
  unfold augmentedType
  split
  next hset =>
    have hno := hset
    rw [settledType_isNode c1 (hp.relation defn hv)] at hno
    have hm : defn ∈ c1.nodes := mem_nodes.mpr ⟨hv, hno⟩
    have hadd : addedFields c2 (c1.settledType defn) = [] := by
      unfold addedFields
      rw [settledType_isObject, settledType_isIgnored hp.lacksRelations hno, settledType_name]
      split
      next hobj =>
        simp only [Bool.and_eq_true, Bool.not_eq_true'] at hobj
        rw [if_pos (h.any_isSystemId hs hp hm hobj.1 hobj.2)]
      · rfl
    have hfs := h.map_fieldGain hs hp h2 hm (c1.settledType defn).fields fun fd hf =>
      mem_append_left _ hf
    unfold augmentedNode
    rw [hadd, append_nil, hfs, withFields_self]
  · rfl

lemma augmentedType_eq (hv : defn ∈ c2.types.values) : augmentedType c2 defn = defn := by
  rcases h.value_cases h2 hv with ⟨decl, hd, rfl⟩ | ho
  · exact h.augmentedType_settledType hs hp h2 hd
  · simp [augmentedType, isNode, ho]

/-- A settled extension is augmented to itself. -/
theorem augmentedExt_settledExt (hx : extn ∈ c1.extensions.flatMap (·.2)) :
    c2.augmentedExt (c1.settledExt extn) = c1.settledExt extn := by
  unfold augmentedExt
  rw [settledExt_name]
  split
  next owner ho =>
    obtain ⟨hg, hno⟩ := Option.filter_eq_some_iff.mp ho
    have hn : owner.name = extn.name := h2.nameOfType _ (mem_of_get? hg)
    obtain ⟨defn, hd, rfl⟩ := h.exists_node hp h2 (mem_nodes_of_get? hg hno)
    have hgt : c1.settledExt extn ∈ c2.extensionsOf (c1.settledType defn).name := by
      rw [h.extensions, hn]
      exact mem_map_of_mem ((mem_extensionsOf hs).mpr ⟨hx, rfl⟩)
    have hfs := h.map_fieldGain hs hp h2 hd (c1.settledExt extn).fields
      fun fd hf => mem_append_right _ (mem_flatMap.mpr ⟨_, hgt, hf⟩)
    rw [augmentedExtension, hfs, TypeExt.withFields_self]
  · split
    next hop =>
      rw [h.operations] at hop
      have hg := get?_of_operationOf? hs hop
      have hfs : (c1.settledExt extn).fields.map (rootField c2 extn.name) =
          (c1.settledExt extn).fields := by
        rw [fields_settledExt hs hp.lacksRelations (.inr ⟨hg, hop⟩), map_map]
        refine map_congr_left fun fd hf => ?_
        exact h.rootField_settledField hs hp (hp.extensions extn hx fd hf) _ _
      rw [augmentedRootExtension, settledExt_name, hfs, TypeExt.withFields_self]
    · rfl

lemma augmentedExt_eq (hx : extn ∈ c2.extensions.flatMap (·.2)) : c2.augmentedExt extn = extn := by
  have hgt := (mem_extensionsOf h2).mpr ⟨hx, rfl⟩
  rw [h.extensions] at hgt
  obtain ⟨decl, hd, rfl⟩ := mem_map.mp hgt
  exact h.augmentedExt_settledExt hs hp h2 (mem_extensions_of_mem_extensionsOf hd)

/-! ## Registered types and offered fields -/

/-- Nothing is registered under a new name. -/
theorem exists_registers (hreg : c2.Registers defn) :
    ∃ other, c1.Registers other ∧ other.name = defn.name := by
  have hrl := h.lacksRelations hs hp h2
  -- What a node type registers is named after it, and whether it does can be told from its members in outline.
  cases hreg with
  | field hno hf hm => exact absurd hm (hrl.not_mem_fieldTypes (hrl.members _ hno _ hf) _)
  | selection hno hobj haug hk =>
    obtain ⟨owner, how, rfl⟩ := h.exists_node hp h2 hno
    rw [settledType_name] at haug hk ⊢
    rw [h.augments_eq hp] at haug
    have hso := isSome_primaryKey_congr (h.outlines_fieldInfos hs hp how)
    rw [hk, Option.isSome_some] at hso
    obtain ⟨key, h1⟩ := Option.isSome_iff_exists.mp hso.symm
    rw [settledType_isObject] at hobj
    exact ⟨_, .selection how hobj haug h1, rfl⟩
  | input hno hobj haug hexp hm =>
    obtain ⟨owner, how, rfl⟩ := h.exists_node hp h2 hno
    rw [settledType_name] at haug hm
    rw [h.augments_eq hp] at haug
    rw [h.settings] at hexp
    rw [settledType_isObject] at hobj
    have hns := mem_map_of_mem (f := (·.name)) hm
    rw [names_inputTypes_congr h.settings (h.outlines_fieldInfos hs hp how)] at hns
    obtain ⟨other, ho, hn⟩ := mem_map.mp hns
    exact ⟨other, .input how hobj haug hexp ho, hn⟩
  | filter hno haug =>
    obtain ⟨owner, how, rfl⟩ := h.exists_node hp h2 hno
    rw [settledType_name, h.augments_eq hp] at haug
    refine ⟨_, .filter how haug, ?_⟩
    have h1 := (nodeInputs_names c1 owner).1
    have hset := (nodeInputs_names c2 (c1.settledType owner)).1
    rw [settledType_name] at hset
    exact h1.trans hset.symm
  | ordering hno haug hord =>
    obtain ⟨owner, how, rfl⟩ := h.exists_node hp h2 hno
    rw [settledType_name, h.augments_eq hp] at haug
    rw [ordering_ne_nil_iff (get?_of_mem_nodes h2 hno), settledType_name,
      h.hasOrdering_eq hs hp how] at hord
    refine ⟨_, .ordering how haug ((ordering_ne_nil_iff (get?_of_mem_nodes hs how)).mpr hord), ?_⟩
    have h1 := (nodeInputs_names c1 owner).2
    have hset := (nodeInputs_names c2 (c1.settledType owner)).2
    rw [settledType_name] at hset
    exact h1.trans hset.symm

/-- Nothing is offered under a new name. -/
theorem exists_offer {kind : OperationKind} (hof : c2.Offers kind fd) :
    ∃ other, Event.offer kind other ∈ c1.effects ∧ other.name = fd.name := by
  have hrl := h.lacksRelations hs hp h2
  cases hof with
  | query hno haug =>
    obtain ⟨owner, how, rfl⟩ := h.exists_node hp h2 hno
    rw [settledType_name, h.augments_eq hp] at haug
    exact ⟨_, offer_mem_effects hs how haug, (settledType_name c1 owner).symm⟩
  | mutation hno hobj haug hmem =>
    obtain ⟨owner, how, rfl⟩ := h.exists_node hp h2 hno
    rw [settledType_name] at haug hmem
    rw [h.augments_eq hp] at haug
    rw [settledType_isObject] at hobj
    have hns := mem_map_of_mem (f := (·.name)) hmem
    rw [names_nodeMutations_congr h.settings (h.outlines_fieldInfos hs hp how)] at hns
    obtain ⟨other, ho, hn⟩ := mem_map.mp hns
    refine ⟨other, mem_effects.mpr ⟨owner, how, mem_append_right _ ?_⟩, hn⟩
    rw [not_ignored_of_augments hs how haug, if_neg (by decide)]
    refine mem_append_left _ ?_
    rw [hobj, if_pos rfl]
    exact offer_mem_mutationEffects.mpr ⟨rfl, .inl ⟨haug, ho⟩⟩
  | relationship hno hobj _ hm hmem =>
    obtain ⟨rel, hrel, _⟩ := mem_fieldGain_mutations hobj hmem
    exact absurd hrel (hrl.not_relates (hrl.members _ hno _ hm))

/-! ## Success -/

omit h2 hs in
/-- A settled member of an operation type is accepted where the declared one was. -/
lemma augmentRootField_succeeds_iff (hf : fd.IsPlain)
    {owner : Name} : (augmentRootField c2 owner isInput (c1.settledField owner kind fd)).Succeeds ↔
      (augmentRootField c1 owner isInput fd).Succeeds := by
  have hds := h.describe_settledField hp hf owner kind
  rw [GraphApi.augmentRootField_succeeds_iff, GraphApi.augmentRootField_succeeds_iff, hds,
    settledField_isOperation]
  simp only [FieldInfo.isIgnored, settledField_marked, describe_field]

lemma augmentField_succeeds (hno : defn ∈ c1.nodes) (hf : fd ∈ c1.membersOf defn)
    (hpf : fd.IsPlain) (hok : (augmentField c1 defn isInput fd).Succeeds) :
    (augmentField c2 (c1.settledType defn) isInput
      (c1.settledField defn.name kind fd)).Succeeds := by
  have hrl := h.lacksRelations hs hp h2
  have hds := h.describe_settledField hp hpf defn.name kind
  rw [augmentField_succeeds_iff (hp.lacksRelations.kind_ne_relationship fd)
    (hp.lacksRelations.members defn hno fd hf)] at hok
  rw [augmentField_succeeds_iff (hrl.kind_ne_relationship _)
    (by rw [settledField_marked]; exact hpf.relation), hds]
  simpa only [FieldInfo.isIgnored, settledField_marked, describe_field] using hok

omit h2 in
lemma checkNodeFields_settledType (hno : defn ∈ c1.nodes)
    (hok : checkNodeFields defn.name ((c1.fieldInfos defn.name).map (·.field)) = .ok ()) :
    checkNodeFields defn.name ((c2.fieldInfos defn.name).map (·.field)) = .ok () := by
  have hf (types : NameMap TypeDef) : (FieldInfo.field ∘ describe types) = id :=
    funext (describe_field types)
  have hmk (owner : Name) (kind : TypeKind) :
      ((fun fd : FieldDef => fd.marked .id) ∘ c1.settledField owner kind) =
      fun fd => fd.marked .id :=
    funext fun fd => settledField_marked ..
  rw [fieldInfos_eq (get?_of_mem_nodes hs hno), map_map, hf, map_id, checkNodeFields_ok_iff] at hok
  rw [h.fieldInfos_settledType hs hno, map_map, hf, map_id, checkNodeFields_ok_iff]
  constructor
  case left =>
    -- the assigned identifier carries no marker
    have hadd : (addedFields c1 defn).filter (·.marked .id) = [] := by
      rw [filter_eq_nil_iff]
      intro fd hm
      rw [mem_addedFields hm]
      decide
    rw [h.membersOf_settledType hs hp hno]
    simp only [filter_append, filter_map, filter_flatMap, hmk, hadd, length_append, length_map,
      length_flatMap, length_nil, Nat.add_zero]
    simpa only [membersOf, filter_append, filter_flatMap, length_append, length_flatMap] using hok.1
  case right =>
    intro fd hm
    rcases h.mem_membersOf_settledType hp hs hno hm with rfl | ⟨decl, hd, kind, _, rfl⟩
    · rfl
    · have hma : (c1.settledField defn.name kind decl).keyMarks = decl.keyMarks := by
        exact filter_congr fun mark _ => settledField_marked ..
      simp only [checkKeyMarks, hma, settledField_marked, settledField_name]
      exact hok.2 decl hd

lemma augmentBody_succeeds (hno : defn ∈ c1.nodes) {pre after : TypeBody}
    (hk : after.kind = pre.kind) (hok : (augmentBody c1 defn pre).Succeeds)
    (hms : ∀ fd ∈ pre.fields, fd ∈ c1.membersOf defn ∧ fd.IsPlain)
    (hfs : ∀ fd ∈ after.fields, fd = systemIdField ∨
      ∃ decl ∈ pre.fields, fd = c1.settledField defn.name pre.kind decl) :
    (augmentBody c2 (c1.settledType defn) after).Succeeds := by
  have hrl := h.lacksRelations hs hp h2
  obtain ⟨hso, hac⟩ := augmentBody_succeeds_iff.mp hok
  have hin : after.isInput = pre.isInput := by rw [TypeBody.isInput, hk, TypeBody.isInput]
  refine augmentBody_succeeds_iff.mpr
    ⟨by rw [TypeBody.fields?_isSome_of_kind hk]; exact hso, fun fd hf => ?_⟩
  rcases hfs fd hf with rfl | ⟨decl, hd, rfl⟩
  · rw [augmentField_succeeds_iff (hrl.kind_ne_relationship _) rfl]
    intro hpr
    cases hpr
  · rw [hin]
    obtain ⟨hm, hdp⟩ := hms decl hd
    exact h.augmentField_succeeds hs hp h2 hno hm hdp (hac decl hd)

/-- The pass over a settled type succeeds if that over the type did. -/
theorem augmentType_succeeds (hv : defn ∈ c1.types.values)
    (hok : (augmentType c1 defn).Succeeds) : (augmentType c2 (c1.settledType defn)).Succeeds := by
  have hrel := hp.relation defn hv
  refine augmentType_succeeds_iff.mpr
    ⟨checkEndpoints_of_relation (by rw [settledType_directives]; exact hrel), fun hset => ?_⟩
  rw [settledType_isNode c1 hrel] at hset
  have hno : defn ∈ c1.nodes := mem_nodes.mpr ⟨hv, hset⟩
  obtain ⟨hchk, hb, hxs⟩ := augmentNodeType_succeeds_iff.mp
    ((augmentType_succeeds_iff.mp hok).2 hset)
  refine augmentNodeType_succeeds_iff.mpr ⟨?_, ?_, ?_⟩
  · rw [settledType_name]
    exact h.checkNodeFields_settledType hs hp hno hchk
  · refine h.augmentBody_succeeds hs hp h2 hno (settledType_kind c1 defn) hb ?_ ?_
    · intro fd hf
      exact ⟨mem_append_left _ hf, hp.members defn hv fd hf⟩
    · intro fd hf
      have hmem : fd ∈ (c1.settledType defn).fields := hf
      rw [fields_settledType hp.lacksRelations hset] at hmem
      -- a member was declared, or is the assigned identifier
      rcases mem_append.mp hmem with hown | hadd
      · obtain ⟨decl, hd, rfl⟩ := mem_map.mp hown
        exact .inr ⟨decl, hd, rfl⟩
      · exact .inl (mem_addedFields hadd)
  · intro extn hx
    rw [settledType_name, h.extensions] at hx
    obtain ⟨decl, hd, rfl⟩ := mem_map.mp hx
    have hn := ((mem_extensionsOf hs).mp hd).2
    refine h.augmentBody_succeeds hs hp h2 hno (settledExt_kind c1 decl) (hxs decl hd) ?_ ?_
    · intro fd hf
      exact ⟨mem_append_right _ (mem_flatMap.mpr ⟨decl, hd, hf⟩), hp.mem_extensionsOf hd fd hf⟩
    · intro fd hf
      have hmem : fd ∈ (c1.settledExt decl).fields := hf
      rw [fields_settledExt hs hp.lacksRelations (.inl ⟨defn, hno, hn.symm⟩), hn] at hmem
      obtain ⟨m, hm, rfl⟩ := mem_map.mp hmem
      exact .inr ⟨m, hm, rfl⟩

lemma augmentTypes_succeed (hok : ∀ defn ∈ c1.types.values, (augmentType c1 defn).Succeeds) :
    ∀ defn ∈ c2.types.values, (augmentType c2 defn).Succeeds := by
  intro defn hv
  rcases h.value_cases h2 hv with ⟨decl, hd, rfl⟩ | ho
  · exact h.augmentType_succeeds hs hp h2 hd (hok decl hd)
  · refine augmentType_succeeds_iff.mpr ⟨checkEndpoints_of_classification ho, fun hno => ?_⟩
    simp [isNode, ho] at hno

omit h2 in
lemma augmentRootExtension_succeeds {name : Name} (hop : (c1.operationOf? name).isSome)
    (hok : ∀ extn ∈ c1.extensionsOf name, (augmentRootExtension c1 extn).Succeeds) :
    ∀ extn ∈ c2.extensionsOf name, (augmentRootExtension c2 extn).Succeeds := by
  intro extn hx
  rw [h.extensions] at hx
  obtain ⟨decl, hd, rfl⟩ := mem_map.mp hx
  obtain rfl := ((mem_extensionsOf hs).mp hd).2
  have hg := get?_of_operationOf? hs hop
  obtain ⟨hso, hac⟩ := augmentRootExtension_succeeds_iff.mp (hok decl hd)
  have hin : (c1.settledExt decl).body.isInput = decl.body.isInput := by
    rw [TypeBody.isInput, settledExt_kind, TypeBody.isInput]
  refine augmentRootExtension_succeeds_iff.mpr
    ⟨by rw [TypeBody.fields?_isSome_of_kind (settledExt_kind c1 decl)]; exact hso, fun fd hf => ?_⟩
  rw [fields_settledExt hs hp.lacksRelations (.inr ⟨hg, hop⟩)] at hf
  obtain ⟨m, hm, rfl⟩ := mem_map.mp hf
  rw [settledExt_name, hin, h.augmentRootField_succeeds_iff hp (hp.mem_extensionsOf hd m hm)]
  exact hac m hm

end Follows

end Catalog

end GraphApi
