import GraphApi.Proofs.Api.Accounting

/-!
# The node API refers to types that exist

The input types of node types that an augmented document refers to are defined in it, and fields
that return nodes take `orderBy` exactly if the ordering enum of their type has a value or they
declare the argument. Main statement: `Document.closesNodeApi_of_augment`.
-/

namespace GraphApi

open List FieldDef Document NameMap

def FieldDef.isOrdered (field : FieldDef) : Prop := "orderBy" ∈ field.arguments.map (·.name)

instance (field : FieldDef) : Decidable field.isOrdered := inferInstanceAs (Decidable (_ ∈ _))

namespace Catalog

variable {owner : TypeDef} {root : OperationKind × RootType} {type name : Name}
  {args : List ArgumentDef} {input : NodeInput} {cat : Catalog}

/-- Whether a node type has an ordering enum with a value, so that its own pass generates it. -/
def GeneratesOrdering (cat : Catalog) (type : Name) : Prop :=
  ∃ owner ∈ cat.nodes, owner.name = type ∧ (nodeInputs cat owner).ordering ≠ []

/-- A declared list field that returns nodes with the query API. -/
structure ListsNodes (cat : Catalog) (field : FieldDef) : Prop where
  kind : (field.describe cat.types).kind = .node
  ignored : (field.describe cat.types).isIgnored = false
  list : (field.describe cat.types).isList
  augments : cat.augments .query field.type.base

def OrdersField (cat : Catalog) (decl aug : FieldDef) : Prop :=
  cat.ListsNodes decl →
    (aug.isOrdered ↔ cat.GeneratesOrdering decl.type.base ∨ decl.isOrdered)

/-- A generated list field of the query type takes an ordering exactly if the ordering enum of the
node type is generated or the field has an argument for a property of that name. -/
def OrdersOffered (cat : Catalog) (field : FieldDef) : Prop :=
  ∃ owner ∈ cat.nodes, field.name = owner.name ∧
    (field.isOrdered ↔ cat.GeneratesOrdering owner.name ∨
      ∃ info ∈ cat.fieldInfos owner.name, info.isStored ∧ info.name = "orderBy")

/-! ## Orderings -/

lemma generatesOrdering_iff (hs : cat.IsSorted)
    (h : cat.augments .query type) : cat.GeneratesOrdering type ↔ cat.hasOrdering type := by
  obtain ⟨owner, hno, rfl, -, hg⟩ := node_of_augments hs h
  constructor
  · rintro ⟨other, ho, hn, hvs⟩
    have heq := get?_of_mem_nodes hs ho
    rw [← hn]
    exact (ordering_ne_nil_iff (hn ▸ heq)).mp hvs
  · exact fun hord => ⟨owner, hno, rfl, (ordering_ne_nil_iff hg).mpr hord⟩

lemma orderBy_mem_queryArguments {ordering filter : Option Name} (hord : ordering ≠ some "") :
    "orderBy" ∈ (queryArguments args true ordering filter).map (·.name) ↔
      ordering.isSome ∨ "orderBy" ∈ args.map (·.name) := by
  rw [mem_names_queryArguments_iff]
  cases ordering <;> simp_all

lemma ordering?_ne_empty (cat : Catalog) (type : Name) : cat.ordering? type ≠ some "" := by
  unfold ordering?
  split
  · intro h
    have ht := congrArg String.toList (Option.some.inj h)
    simp [orderingName] at ht
  · simp

lemma ordering?_isSome (cat : Catalog) (type : Name) :
    (cat.ordering? type).isSome = cat.hasOrdering type := by
  unfold ordering?
  split <;> simp_all

lemma isOrdered_retargetIn (cfg : Settings) (kind : TypeKind) (fd : FieldDef) :
    (fd.retargetIn cfg kind).isOrdered ↔ fd.isOrdered := by
  unfold isOrdered retargetIn
  split <;> simp [retarget, retargetInput, ArgumentDef.retarget, Function.comp_def]

lemma forall₂_ordersField_map {cfg : Settings} {kind : TypeKind} {fields : List FieldDef}
    {gain : FieldDef → FieldDef} (h : ∀ fd, cat.OrdersField fd (gain fd)) :
    Forall₂ cat.OrdersField fields (fields.map fun fd => (gain fd).retargetIn cfg kind) :=
  forall₂_map_right_iff.mpr (forall₂_same.mpr fun fd _ hli =>
    (isOrdered_retargetIn cfg kind _).trans (h fd hli))

section

variable (hs : cat.IsSorted)
include hs

lemma ordersField_nodeFieldArguments {owner : Name}
    (ho : cat.operationOf? owner = none ∨ cat.operationOf? owner = some .query) (fd : FieldDef) :
    cat.OrdersField fd { fd with arguments := nodeFieldArguments cat owner (fd.describe cat.types) } := by
  intro hli
  have hta : cat.takesArguments owner fd.type.base := by
    unfold takesArguments
    rcases ho with h | h <;> simp [h, hli.augments]
  unfold isOrdered
  rw [nodeFieldArguments, describe_type, if_pos hta, nodeArguments, hli.list, describe_type,
    describe_field, orderBy_mem_queryArguments (ordering?_ne_empty cat _), ordering?_isSome,
    generatesOrdering_iff hs hli.augments]

lemma operationOf?_of_mem_nodes (hno : owner ∈ cat.nodes) : cat.operationOf? owner.name = none :=
  operationOf?_of_get? hs (get?_of_mem_nodes hs hno)

lemma ordersField_fieldGain (hno : owner ∈ cat.nodes)
    (fd : FieldDef) : cat.OrdersField fd (fieldGain cat owner fd).field := by
  intro hli
  have hga : (fieldGain cat owner fd).field =
      { fd with arguments := nodeFieldArguments cat owner.name (fd.describe cat.types) } := by
    simp [fieldGain, hli.kind, hli.ignored, nodeFieldGain]
  rw [hga]
  exact ordersField_nodeFieldArguments hs (.inl (operationOf?_of_mem_nodes hs hno)) fd hli

lemma ordersField_rootField {owner : Name} (ho : cat.operationOf? owner = some .query) (fd : FieldDef) :
    cat.OrdersField fd (rootField cat owner fd) := by
  intro hli
  have hr : rootField cat owner fd =
      { fd with arguments := nodeFieldArguments cat owner (fd.describe cat.types) } := by
    simp [rootField, hli.kind, hli.ignored]
  rw [hr]
  exact ordersField_nodeFieldArguments hs (.inr ho) fd hli

lemma ordersOffered_of_offers {fd : FieldDef} (h : cat.Offers .query fd) :
    cat.OrdersOffered fd := by
  cases h with
  | @query owner hno haug =>
    refine ⟨owner, hno, rfl, ?_⟩
    unfold isOrdered nodeQueryField
    rw [orderBy_mem_queryArguments (ordering?_ne_empty cat _), ordering?_isSome,
      generatesOrdering_iff hs haug]
    simp [nodeQueryArguments, and_assoc]

lemma offer_mem_effects (hno : owner ∈ cat.nodes) (haug : cat.augments .query owner.name) :
    Event.offer .query (nodeQueryField cat owner.name (cat.fieldInfos owner.name)) ∈
      cat.effects := by
  have hig := not_ignored_of_augments hs hno haug
  refine mem_effects.mpr ⟨owner, hno, mem_append_right _ ?_⟩
  rw [hig, if_neg (by decide)]
  exact mem_append_right _ (offer_mem_queryEffects.mpr ⟨haug, rfl, rfl⟩)

end

/-- The query type is the operation type of its name: queries come before the other operations. -/
lemma operationOf?_of_query {cfg : Settings} {doc : Document}
    (hcat : (ofDocument cfg doc).outcome = .ok cat) (hr : root ∈ cat.roots)
    (hqu : root.1 = .query) : cat.operationOf? root.2.name = some .query := by
  rw [ofDocument_eq hcat, declaredRoots, OperationKind.all] at hr
  unfold operationOf?
  rw [ofDocument_eq hcat, declaredRoots, OperationKind.all]
  cases hd : (rootNames doc).zip (takeRoots (sorted cfg doc).types (rootNames doc)).1 with
  | nil => simp [hd] at hr
  | cons fst rest =>
    simp only [hd, zip_cons_cons, flatMap_cons, mem_append, mem_flatMap] at hr ⊢
    rcases hr with hr | ⟨e, he, hr⟩
    · rcases rootsOf_cases (withoutRoots cfg doc) .query fst.1 fst.2 with hno | ⟨own, hown⟩
      · simp [hno] at hr
      · rw [hown, mem_singleton] at hr
        simp [hown, hr]
    · -- the entries that follow are of other kinds
      have hk := (of_mem_zip he).1
      rcases rootsOf_cases (withoutRoots cfg doc) e.1 e.2.1 e.2.2 with hno | ⟨own, hown⟩
      · simp [hno] at hr
      · rw [hown, mem_singleton] at hr
        have hek : e.1 = .query := by rw [← hqu, hr]
        simp [hek] at hk

/-! ## Names of input types -/

def builtinWords : List Name :=
  ["Int", "Float", "String", "ID", "Boolean"] ++ TemporalKind.all.map (·.word) ++
    SpatialKind.all.map (·.word)

lemma mem_builtinWords (h : (builtinCategory? name).isSome) : name ∈ builtinWords := by
  have hfo {Kind : Type} {kinds : List Kind} {word : Kind → Name}
      (h : (kinds.find? (word · == name)).isSome) : name ∈ kinds.map word := by
    obtain ⟨kind, hk, hw⟩ := find?_isSome.mp h
    exact mem_map.mpr ⟨kind, hk, by simpa using hw⟩
  unfold builtinCategory? at h
  split_ifs at h with hint hfl hst hbo hte hsp
  · simp [builtinWords, hint]
  · simp [builtinWords, hfl]
  · rcases hst with rfl | rfl <;> simp [builtinWords]
  · simp [builtinWords, hbo]
  · exact mem_append_left _ (mem_append_right _ (hfo hte))
  · exact mem_append_right _ (hfo hsp)
  · simp at h

lemma eq_of_baseKind (name : Name) :
    name = baseKind name ∨ name = storedTypeName (baseKind name) ∨
      name = storedInputName (baseKind name) := by
  unfold baseKind
  cases hst : Text.dropStart? storedStart name with
  | none => exact .inl rfl
  | some rest =>
    have hn : name = storedStart ++ rest := Text.eq_append_of_dropStart? hst
    dsimp only
    cases hend : Text.dropEnd? inputEnd rest with
    | none => exact .inr (.inl hn)
    | some kind =>
      have hr : rest = kind ++ inputEnd := Text.dropEnd?_eq_some_iff.mp hend
      refine .inr (.inr ?_)
      rw [storedInputName, Option.getD_some, String.append_assoc, ← hr, ← hn]

lemma ending_not_suffix : ∀ input ∈ [NodeInput.filter, .ordering, .selection, .condition, .keys,
    .create, .update],
    ∀ word ∈ builtinWords.map String.toList, input.ending.toList.isSuffixOf word = false ∧
      input.ending.toList.isSuffixOf (storedStart.toList ++ word) = false ∧
        (input ≠ .selection → input.ending.toList.isSuffixOf (storedStart.toList ++ word ++
          inputEnd.toList) = false) := by
  decide +kernel

lemma selection_of_builtin (h : (builtinCategory? (baseKind (input.name type))).isSome) :
    input = .selection ∧ ∃ kind ∈ builtinWords, input.name type = storedInputName kind := by
  have hen : input.ending.toList.isSuffixOf (input.name type).toList := by
    simp [NodeInput.name_eq, isSuffixOf_iff_suffix]
  have hk := mem_builtinWords h
  obtain ⟨hba, ht, hin⟩ := ending_not_suffix input (by cases input <;> decide) _ (mem_map_of_mem hk)
  rcases eq_of_baseKind (input.name type) with hn | hn | hn
  · rw [← hn, hen] at hba
    cases hba
  · rw [hn, storedTypeName, String.toList_append, ht] at hen
    cases hen
  · refine ⟨?_, _, hk, hn⟩
    by_contra ho
    rw [hn, storedInputName, String.toList_append, String.toList_append, hin ho] at hen
    cases hen

/-! ## The whole document -/

/-- The node API of an augmented document is closed. -/
structure ClosesNodeApi (cat : Catalog) (doc aug : Document) : Prop where
  /-- An input value with the name of an input type of a node type refers to a defined type, unless the document declares the
  value there, a generated type takes it over from a declared member, it has the name of a temporal or spatial input type, or a
  relationship field takes the name from an interface. -/
  references : ∀ site ∈ inputSites aug, ∀ owner ∈ cat.nodes, ∀ input : NodeInput,
    site.type = input.name owner.name → site.type ∈ (typeDefs aug).map (·.name) ∨
      site ∈ inputSites doc ∨
      (site.holder ∈ cat.generated.keys ∧ (site.value, site.type) ∈ cat.carriedValues) ∨
      (input = .selection ∧ ∃ kind ∈ builtinWords, site.type = storedInputName kind) ∨
        cat.Borrows site.type
  /-- The input types that the API provides are defined. -/
  provided : ∀ type input, cat.provides type input →
    input.name type ∈ (typeDefs aug).map (·.name)
  /-- The fields of node types are ordered. -/
  types : ∀ defn ∈ cat.nodes, ∃ after ∈ typeDefs aug, after.name = defn.name ∧
    ∃ kept added, after.fields = kept ++ added ∧ Forall₂ cat.OrdersField defn.fields kept
  /-- The fields of extensions of node types and of the query type are ordered. -/
  extensions : ∀ extn ∈ typeExts doc,
    (∃ defn ∈ cat.nodes, defn.name = extn.name) ∨ cat.operationOf? extn.name = some .query →
      ∃ after ∈ typeExts aug, after.name = extn.name ∧
        Forall₂ cat.OrdersField extn.fields after.fields
  /-- The fields of the query type are ordered; it is left out only if extensions declare all of its fields. -/
  queries : ∀ root ∈ cat.roots, root.1 = .query →
    (∃ after ∈ typeDefs aug, after.name = root.2.name ∧ ∃ kept added, after.fields = kept ++ added ∧
      Forall₂ cat.OrdersField root.2.fields kept ∧ ∀ field ∈ added, cat.OrdersOffered field) ∨
    ∀ type, cat.augments .query type → type ∈ root.2.extensionFields

section ClosesNodeApi

variable {cfg : Settings} {doc aug : Document}
  (hcat : (ofDocument cfg doc).outcome = .ok cat) (h : cat.augment.outcome = .ok aug)
include hcat h

lemma references_of_augment {site : InputSite} (hsi : site ∈ aug.inputSites)
    (hn : site.type = input.name owner.name) :
    site.type ∈ aug.typeDefs.map (·.name) ∨ site ∈ doc.inputSites ∨
      (site.holder ∈ cat.generated.keys ∧ (site.value, site.type) ∈ cat.carriedValues) ∨
      (input = .selection ∧ ∃ kind ∈ builtinWords, site.type = storedInputName kind) ∨
      cat.Borrows site.type := by
  have hs := isSorted_of_ok hcat
  rcases accounts_of_mem_inputSites hcat h hsi with hac | hd | hca
  · cases hac with
    | declared h => simp at h
    | known hkn =>
      exact .inl (hkn.elim (defined_of_declared hs h) (defined_of_generated hs h))
    | property hpr =>
      rcases declared_or_builtin hpr with hd | hbi
      · exact .inl (defined_of_declared hs h hd)
      · rw [hn] at hbi ⊢
        exact .inr (.inr (.inr (.inl (selection_of_builtin hbi))))
    | borrowed hbo => exact .inr (.inr (.inr (.inr hbo)))
  · exact .inr (.inl hd)
  · exact .inr (.inr (.inl hca))

lemma types_of_augment {defn : TypeDef} (hno : defn ∈ cat.nodes) :
    ∃ after ∈ aug.typeDefs, after.name = defn.name ∧
    ∃ kept added, after.fields = kept ++ added ∧ Forall₂ cat.OrdersField defn.fields kept := by
  have hs := isSorted_of_ok hcat
  obtain ⟨hv, hin⟩ := mem_nodes.mp hno
  refine ⟨_, mem_typeDefs_augment hs h hv, augmentedType_name cat defn, _, _,
    fields_augmentedType hin _, ?_⟩
  exact forall₂_ordersField_map (ordersField_fieldGain hs hno)

lemma extensions_of_augment {extn : TypeExt} (hx : extn ∈ doc.typeExts)
    (hn : (∃ defn ∈ cat.nodes, defn.name = extn.name) ∨ cat.operationOf? extn.name = some .query) :
    ∃ after ∈ aug.typeExts, after.name = extn.name ∧
      Forall₂ cat.OrdersField extn.fields after.fields := by
  have hs := isSorted_of_ok hcat
  have hm := (perm_extensions hcat).mem_iff.mpr hx
  refine ⟨_, mem_typeExts_augment hs h hm, augmentedExt_name cat extn, ?_⟩
  rcases hn with ⟨defn, hno, heq⟩ | hqu
  · have hg := get?_of_mem_nodes hs hno
    rw [heq] at hg
    rw [fields_augmentedExt hg (mem_nodes.mp hno).2]
    exact forall₂_ordersField_map (ordersField_fieldGain hs hno)
  · have hop : (cat.operationOf? extn.name).isSome := by rw [hqu]; rfl
    obtain ⟨root, hr, heq⟩ := mem_map.mp (operationOf?_isSome_iff.mp hop)
    have hg := hs.rootsApart root hr
    rw [heq, ← get?_eq_none_iff] at hg
    rw [fields_augmentedExt_of_root hg hop]
    exact forall₂_ordersField_map (ordersField_rootField hs hqu)

lemma queries_of_augment (hr : root ∈ cat.roots) (hqu : root.1 = .query) :
    (∃ after ∈ aug.typeDefs, after.name = root.2.name ∧ ∃ kept added, after.fields = kept ++ added ∧
      Forall₂ cat.OrdersField root.2.fields kept ∧ ∀ fd ∈ added, cat.OrdersOffered fd) ∨
    ∀ type, cat.augments .query type → type ∈ root.2.extensionFields := by
  have hs := isSorted_of_ok hcat
  have hop := operationOf?_of_query hcat hr hqu
  obtain ⟨after, ha, hgr⟩ := exists_grown hr
  cases hdr : after.2.generated && after.2.fields.isEmpty with
  | false =>
    have hkp : after ∈ keptRoots cat.progress.roots := mem_filter.mpr ⟨ha, by simp [hdr]⟩
    obtain ⟨added, hfs, hadd⟩ := hgr.fields
    have hd : after.2.definition = root.2.definition := hgr.definition
    have hbu := RootType.fields_retarget_build (hd ▸ hs.rootsHaveFields root hr) cat.settings
    rw [hd, hfs, augmentedRoot, map_append, map_map] at hbu
    refine .inl ⟨_, mem_typeDefs_of_mem_keptRoots hs h hkp, ?_, _, _, hbu,
      forall₂_ordersField_map (ordersField_rootField hs hop), ?_⟩
    · change after.2.definition.name = _
      rw [hd]
      rfl
    · refine forall_mem_map.mpr fun offered hoff => ?_
      have hof := offers_of_mem_effects (hadd offered hoff)
      obtain ⟨owner, hno, hn, hor⟩ := ordersOffered_of_offers hs (hqu ▸ hof)
      exact ⟨owner, hno, (retargetIn_name ..).trans hn, (isOrdered_retargetIn ..).trans hor⟩
  | true =>
    -- nothing was added, so whatever was offered is declared by an extension
    rw [Bool.and_eq_true, List.isEmpty_iff] at hdr
    refine .inr fun type haug => ?_
    obtain ⟨owner, hno, rfl, -, -⟩ := node_of_augments hs haug
    have hk : after = (.query, after.2) := Prod.ext (hgr.kind.trans hqu) rfl
    rw [hk] at ha
    have hhas := Progress.has_of_offer ha (offer_mem_effects hs hno haug)
    rw [RootType.has, hdr.2, hgr.extensionFields] at hhas
    simpa [nodeQueryField, augmentedRoot] using hhas

end ClosesNodeApi

end Catalog

/-- The node API of an augmented document is closed: it refers to types that exist, and list fields
of nodes take an ordering exactly if its enum is generated or they declare the argument. -/
theorem Document.closesNodeApi_of_augment {settings : Settings} {document augmented : Document}
    (h : (document.augment settings).outcome = .ok augmented) :
    ∃ catalog, (Catalog.ofDocument settings document).outcome = .ok catalog ∧
      catalog.ClosesNodeApi document augmented := by
  obtain ⟨catalog, hcatalog, haugment⟩ := Run.bind_ok_iff.mp h
  refine ⟨catalog, hcatalog, ?_⟩
  exact
    { references := fun site hsite owner _ input hname => Catalog.references_of_augment hcatalog haugment hsite hname
      provided := fun type input hprovides => by
        have hsorted := Catalog.isSorted_of_ok hcatalog
        obtain ⟨definition, hregisters, hname⟩ := Catalog.registers_of_provides hsorted hprovides
        rw [← hname]
        exact Catalog.defined_of_registers hsorted haugment hregisters
      types := fun definition hnode => Catalog.types_of_augment hcatalog haugment hnode
      extensions := fun extension hextension hname => Catalog.extensions_of_augment hcatalog haugment hextension hname
      queries := fun root hroot hquery => Catalog.queries_of_augment hcatalog haugment hroot hquery }

/-- Films that declare a list of films, a relationship and an extension. -/
theorem films_close_node_api : ∃ augmented, (filmDocument.augment {}).outcome = .ok augmented ∧
    ∃ catalog, (Catalog.ofDocument {} filmDocument).outcome = .ok catalog ∧
      catalog.ClosesNodeApi filmDocument augmented := by
  obtain ⟨augmented, h⟩ := Run.exists_of_isOk
    (by decide +kernel : (filmDocument.augment {}).outcome.isOk)
  exact ⟨augmented, h, closesNodeApi_of_augment h⟩

/-- An interface without a property to order by, and a declared enum with the name of its
ordering. -/
def taggedDocument : Document :=
  [.interface "Tagged" [.many "tags" "String"],
   .type { name := orderingName "Tagged", body := .enum [{ name := "tags_asc" }] },
   .object "Box" [.idField, .many "items" "Tagged"]]

/-- A declared ordering enum does not bring an ordering to the fields that return nodes with the
query API. -/
theorem tagged_items_not_ordered :
    (∃ catalog, (Catalog.ofDocument {} taggedDocument).outcome = .ok catalog ∧
      catalog.augments .query "Tagged") ∧
    ∃ augmented, (taggedDocument.augment {}).outcome = .ok augmented ∧
      orderingName "Tagged" ∈ augmented.typeDefs.map (·.name) ∧
      ∃ box ∈ augmented.typeDefs, box.name = "Box" ∧
        ∃ items ∈ box.fields, items.name = "items" ∧ items.type = Wrappers.plainList.wrap "Tagged" ∧ ¬items.isOrdered :=
  ⟨Run.exists_of_any (by decide +kernel), Run.exists_of_any (by decide +kernel)⟩

end GraphApi
