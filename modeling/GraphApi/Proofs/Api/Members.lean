import GraphApi.Proofs.Api.InputValues

/-!
# The members of an augmented document

Every declared member is found again in its place, and further members of operation types were
offered to them. Main statement: `Catalog.hasMembers_of_augment`. Of several definitions of one name
the last is in force.
-/

namespace GraphApi

open List Document NameMap TypeBody

variable {doc : Document} {defn : TypeDef} {root : OperationKind × RootType}

/-! ## Retargeted fields -/

variable (cfg : Settings) (kind : TypeKind) (fd : FieldDef)

lemma directives_retargetIn : (fd.retargetIn cfg kind).directives = fd.directives := by
  unfold FieldDef.retargetIn
  split <;> rfl

lemma arguments_retargetIn : (fd.retargetIn cfg kind).arguments =
    fd.arguments.map (·.retarget cfg) := by
  unfold FieldDef.retargetIn
  split <;> rfl

namespace Catalog

variable {cat : Catalog} {pre after : OperationKind × RootType}

lemma map_name_retargetIn (cfg : Settings) (kind : TypeKind) (fields : List FieldDef) :
    (fields.map (·.retargetIn cfg kind)).map (·.name) = fields.map (·.name) := by
  rw [map_map]
  exact map_congr_left fun fd _ => retargetIn_name cfg kind fd

/-! ## Operation types after all steps -/

lemma rootsHaveFields_of_keptRoots (hs : cat.IsSorted)
    (hr : root ∈ keptRoots cat.progress.roots) : root.2.definition.body.fields?.isSome := by
  obtain ⟨pre, hb, added, hcom⟩ := exists_completes (mem_of_mem_filter hr)
  rw [hcom.definition]
  exact hs.rootsHaveFields pre hb

end Catalog

/-! ## Types in force -/

/-- The types in force: of several definitions of one name the last, in the place of the first. -/
def Document.inForce (doc : Document) : List TypeDef :=
  distinctBy (·.name) (typeDefs doc)

lemma Document.mem_ofList_of_inForce (h : defn ∈ doc.inForce) : (defn.name, defn) ∈
    ofList (doc.typeDefs.map fun defn => (defn.name, defn)) := by
  obtain ⟨e, he, rfl⟩ := mem_map.mp h
  obtain ⟨decl, -, rfl⟩ := mem_map.mp (mem_of_mem_ofList he)
  exact he

lemma Document.mem_typeDefs_of_inForce (h : defn ∈ doc.inForce) : defn ∈ doc.typeDefs := by
  have he := mem_of_mem_ofList (mem_ofList_of_inForce h)
  obtain ⟨decl, hd, heq⟩ := mem_map.mp he
  rwa [← (Prod.mk.inj heq).2]

lemma Document.eq_of_inForce {fst snd : TypeDef} (h1 : fst ∈ doc.inForce)
    (h2 : snd ∈ doc.inForce) (hn : fst.name = snd.name) : fst = snd := by
  have hg {defn : TypeDef} (h : defn ∈ doc.inForce) :=
    get?_eq_some_of_mem (nodup_keys_ofList _) (mem_ofList_of_inForce h)
  have heq := hg h1
  rw [hn, hg h2] at heq
  exact (Option.some.inj heq).symm

def Document.innerInForce (doc : Document) : List TypeDef :=
  (inForce doc).filter fun defn => !(Catalog.rootNames doc).contains defn.name

def Document.extensionFields (doc : Document) (type : Name) : List FieldDef :=
  ((typeExts doc).filter (·.name == type)).flatMap TypeExt.fields

namespace Catalog

variable {defn : TypeDef} {kind : OperationKind} {name : Name} {cat : Catalog}
  {decl gained : FieldDef} {doc aug : Document}

section

variable {cfg : Settings} {doc : Document} {cat : Catalog}
  (hcat : (ofDocument cfg doc).outcome = .ok cat)
include hcat

lemma values_eq_innerInForce : cat.types.values = doc.innerInForce := by
  rw [ofDocument_eq hcat]
  change values ((sorted cfg doc).types.filter _) = _
  unfold innerInForce inForce distinctBy
  rw [values, values, filter_map, sorted_types]
  refine congrArg (map _) (filter_congr fun e he => ?_)
  rw [← sorted_types cfg] at he
  rw [Function.comp_apply, (mem_sorted_types cfg he).1]

lemma inForce_of_get? {type : Name} (h : cat.types.get? type = some defn) :
    defn ∈ doc.inForce ∧ defn.name = type := by
  have he := mem_of_get? h
  refine ⟨?_, (isSorted_of_ok hcat).nameOfType _ he⟩
  have hv : defn ∈ cat.types.values := mem_map_of_mem he
  rw [values_eq_innerInForce hcat] at hv
  exact mem_of_mem_filter hv

lemma extensionFieldNames_eq (type : Name) :
    cat.extensionFieldNames type = (doc.extensionFields type).map (·.name) := by
  rw [extensionFieldNames, extensionsOf_eq hcat, extensionFields, map_flatMap]

omit hcat in
lemma mem_of_mem_declaredRoots {decl : Option TypeDef}
    (h : (kind, name, decl) ∈ declaredRoots cfg doc) :
    name ∈ rootNames doc ∧ ∀ defn, decl = some defn → defn.name = name ∧ defn ∈ doc.typeDefs := by
  have hzip := (of_mem_zip h).2
  refine ⟨(of_mem_zip hzip).1, ?_⟩
  rintro defn rfl
  exact mem_sorted_types cfg (mem_of_get? (get?_of_takeRoots hzip))

lemma exists_declaredRoot (h : root ∈ cat.roots) :
    ∃ decl : Option TypeDef, (root.1, root.2.name, decl) ∈ declaredRoots cfg doc ∧
      root.2.fields = (decl.map TypeDef.fields).getD [] ∧
      root.2.extensionFields = (doc.extensionFields root.2.name).map (·.name) := by
  have hns := extensionFieldNames_eq hcat
  rw [ofDocument_eq hcat] at h hns
  obtain ⟨⟨kind, name, decl⟩, he, h⟩ := mem_flatMap.mp h
  have hn := name_of_mem_rootsOf cfg he h
  refine ⟨decl, ?_⟩
  rw [hn, ← hns]
  unfold rootsOf at h
  cases decl with
  | some defn =>
    obtain rfl := mem_singleton.mp h
    exact ⟨he, rfl, rfl⟩
  | none =>
    dsimp only at h
    split at h
    · obtain rfl := mem_singleton.mp h
      exact ⟨he, rfl, rfl⟩
    · simp at h

lemma exists_root_of_declared (h : (kind, name, some defn) ∈ declaredRoots cfg doc) :
    ∃ root ∈ cat.roots, root.1 = kind ∧ root.2.name = name ∧ root.2.generated = false := by
  rw [ofDocument_eq hcat]
  refine ⟨_, mem_flatMap.mpr ⟨_, h, mem_singleton_self _⟩, rfl, ?_, rfl⟩
  exact name_of_mem_rootsOf cfg h (mem_singleton_self _)

end

/-! ## The whole document -/

def operationTypes (cat : Catalog) : List (OperationKind × TypeDef) :=
  (keptRoots cat.progress.roots).map fun root => (root.1, root.2.build.retarget cat.settings)

/-- What a declared member becomes before temporal and spatial types are retargeted. -/
inductive Becomes (cat : Catalog) (decl : FieldDef) : FieldDef → Prop
  | stays : Becomes cat decl decl
  | ofNode {owner : TypeDef} (hnode : owner ∈ cat.nodes) :
      Becomes cat decl (fieldGain cat owner decl).field
  | ofOperation (owner : Name) : Becomes cat decl (rootField cat owner decl)

/-- A member that becomes another one keeps what `GainsField` lists. -/
lemma Becomes.gains (h : cat.Becomes decl gained) : GainsField cat.types decl gained := by
  cases h with
  | stays => exact .refl _ _
  | ofNode => exact gainsField_fieldGain ..
  | ofOperation => exact gainsField_rootField ..

/-- What a declared member can become: it stays, it takes the arguments of a field that returns
nodes, or it is retyped to lead to a relationship. -/
lemma Becomes.shape (h : cat.Becomes decl gained) :
    gained = decl ∨ ((decl.describe cat.types).kind = .node ∧ ∃ owner,
    gained = { decl with arguments := nodeFieldArguments cat owner (decl.describe cat.types) }) ∨
    ∃ owner ∈ cat.nodes, ∃ rel, cat.Reaches owner decl rel ∧ rel.isQueried cat ∧
      gained = rel.retype (cat.naming owner decl.name) (decl.describe cat.types) := by
  cases h with
  | stays => exact .inl rfl
  | @ofNode owner hno =>
    rcases fieldGain_field_cases cat owner decl with h | ⟨hk, -, h⟩ | ⟨rel, hre, hq, h⟩
    · exact .inl h
    · exact .inr (.inl ⟨hk, owner.name, h⟩)
    · exact .inr (.inr ⟨owner, hno, rel, hre, hq, h⟩)
  | ofOperation owner =>
    unfold rootField
    dsimp only
    split
    next hrt =>
      rw [Bool.and_eq_true, decide_eq_true_eq] at hrt
      exact .inr (.inl ⟨hrt.1, owner, rfl⟩)
    · exact .inl rfl

/-- The members of an augmented document. Declared ones stand in their places, each as `kept` says
of it for the kind of its type; operation types have gained others, which are `made` for their
operation. -/
structure HasMembers (cat : Catalog) (doc aug : Document)
    (kept : TypeKind → FieldDef → FieldDef → Prop)
    (made : OperationKind → FieldDef → Prop) : Prop where
  /-- The types that are no operation types come first; the assigned identifier may follow their members. -/
  types : ∃ inner generated, typeDefs aug = inner ++ cat.operationTypes.map (·.2) ++ generated ∧
    Forall₂ (fun declared type => type.name = declared.name ∧
      ∃ own more, type.fields = own ++ more ∧
      Forall₂ (kept declared.body.kind) declared.fields own) (innerInForce doc) inner
  /-- Fields that an operation type has gained have names that neither it nor its extensions declare, each once. -/
  operations : ∀ operation ∈ cat.operationTypes, ∃ declared : Option TypeDef,
    (operation.1, operation.2.name, declared) ∈ declaredRoots cat.settings doc ∧
      ∃ own added, operation.2.fields = own ++ added ∧
        Forall₂ (kept operation.2.body.kind) ((declared.map TypeDef.fields).getD []) own ∧
        (∀ field ∈ added, field.name ∉ ((declared.map TypeDef.fields).getD []).map (·.name) ∧
          field.name ∉ (extensionFields doc operation.2.name).map (·.name) ∧
          made operation.1 field) ∧
        (added.map (·.name)).Nodup
  declared : ∀ kind name defn, (kind, name, some defn) ∈ declaredRoots cat.settings doc →
    ∃ type, (kind, type) ∈ cat.operationTypes ∧ type.name = name
  /-- Extensions gather by type, and nothing is added to them. -/
  extensions : ∃ order, order.Perm (typeExts doc) ∧
    Forall₂ (fun declared extn => extn.name = declared.name ∧
      Forall₂ (kept declared.body.kind) declared.fields extn.fields) order (typeExts aug)

lemma HasMembers.imp {kept other : TypeKind → FieldDef → FieldDef → Prop}
    {made ready : OperationKind → FieldDef → Prop} (h : cat.HasMembers doc aug kept made)
    (hkp : ∀ kind decl fd, kept kind decl fd → other kind decl fd)
    (hma : ∀ kind fd, made kind fd → ready kind fd) : cat.HasMembers doc aug other ready := by
  refine ⟨?_, ?_, h.declared, ?_⟩
  · obtain ⟨inner, generated, hts, hin⟩ := h.types
    refine ⟨inner, generated, hts, hin.imp fun decl type ⟨hn, own, more, hfs, hown⟩ => ?_⟩
    exact ⟨hn, own, more, hfs, hown.imp (hkp _)⟩
  · intro op hop
    obtain ⟨decl, hd, own, added, hfs, hown, hadd, hnd⟩ := h.operations op hop
    refine ⟨decl, hd, own, added, hfs, hown.imp (hkp _), fun fd hf => ?_, hnd⟩
    obtain ⟨hown, hxs, hf⟩ := hadd fd hf
    exact ⟨hown, hxs, hma _ _ hf⟩
  · obtain ⟨order, hor, hxs⟩ := h.extensions
    exact ⟨order, hor, hxs.imp fun decl extn ⟨hn, hfs⟩ => ⟨hn, hfs.imp (hkp _)⟩⟩

lemma becomes_gain (cat : Catalog) (owner : Name) (decl : FieldDef) :
    cat.Becomes decl (cat.gain owner decl) := by
  unfold gain
  split
  next defn hd =>
    obtain ⟨hg, hno⟩ := Option.filter_eq_some_iff.mp hd
    exact .ofNode (mem_nodes_of_get? hg hno)
  · split
    · exact .ofOperation owner
    · exact .stays

lemma exists_fields_augmentedType (hs : cat.IsSorted) (hv : defn ∈ cat.types.values) :
    ∃ own more, ((augmentedType cat defn).retarget cat.settings).fields = own ++ more ∧
      Forall₂ (fun decl fd => ∃ gained, cat.Becomes decl gained ∧
        fd = gained.retargetIn cat.settings defn.body.kind) defn.fields own := by
  rw [augmentedType_eq hs hv]
  refine ⟨_, _, fields_retarget_withFields cat.settings (cat.gain defn.name) ?_, ?_⟩
  · by_cases hno : defn.isNode
    · exact .inl (TypeDef.fields?_isSome_of_isNode hno)
    · exact .inr (if_neg hno)
  · exact forall₂_map_right_iff.mpr (forall₂_same.mpr fun fd _ => ⟨_, cat.becomes_gain _ fd, rfl⟩)

lemma forall₂_fields_augmentedExt (cat : Catalog) (extn : TypeExt) :
    Forall₂ (fun decl fd => ∃ gained, cat.Becomes decl gained ∧
        fd = gained.retargetIn cat.settings extn.body.kind) extn.fields
      ((cat.augmentedExt extn).retarget cat.settings).fields := by
  rw [augmentedExt_eq, TypeExt.fields_retarget_withFields, forall₂_map_right_iff, forall₂_same]
  exact fun fd _ => ⟨_, cat.becomes_gain _ fd, rfl⟩

lemma Completes.fields_build {pre after : OperationKind × RootType} {added : List FieldDef}
    (h : cat.Completes pre after added) (hb : pre.2.definition.body.fields?.isSome) :
    (after.2.build.retarget cat.settings).fields = pre.2.fields.map (fun fd =>
        (rootField cat pre.2.name fd).retargetIn cat.settings pre.2.definition.body.kind) ++
      added.map (·.retargetIn cat.settings pre.2.definition.body.kind) := by
  rw [RootType.fields_retarget_build (h.definition ▸ hb), h.definition, h.fields,
    map_append, map_map]
  rfl

/-- The members of an augmented document are declared ones in their places, and offered ones. -/
theorem hasMembers_of_augment {cfg : Settings} (hcat : (ofDocument cfg doc).outcome = .ok cat)
    (h : cat.augment.outcome = .ok aug) : cat.HasMembers doc aug
      (fun kind decl fd => ∃ gained, cat.Becomes decl gained ∧ fd = gained.retargetIn cfg kind)
      (fun op fd => ∃ offered kind, cat.Offers op offered ∧ fd = offered.retargetIn cfg kind) := by
  have hs := isSorted_of_ok hcat
  obtain rfl := ofDocument_settings hcat
  refine ⟨?_, ?_, ?_, ?_⟩
  · obtain ⟨dirs, hts⟩ := typeDefs_augment hs h
    refine ⟨cat.types.values.map fun defn => (augmentedType cat defn).retarget cat.settings,
      (keptTypes cat.types cat.generated).map (·.retarget cat.settings) ++
        (cat.parts dirs).scalars cat.settings, ?_, ?_⟩
    · rw [hts]
      simp [operationTypes, Function.comp_def]
    · rw [← values_eq_innerInForce hcat, forall₂_map_right_iff, forall₂_same]
      exact fun defn hv => ⟨augmentedType_name cat defn, exists_fields_augmentedType hs hv⟩
  · -- an operation type keeps its members, and the offered ones come after them
    refine forall_mem_map.mpr fun after ha => ?_
    obtain ⟨pre, hb, added, hcom⟩ := exists_completes (mem_of_mem_filter ha)
    obtain ⟨decl, hd, hfs, hxs⟩ := exists_declaredRoot hcat hb
    have hn : (after.2.build.retarget cat.settings).name = pre.2.name := hcom.name
    have hk : (after.2.build.retarget cat.settings).body.kind = pre.2.definition.body.kind := by
      change ((after.2.definition.body.withFields _).retarget _).kind = _
      rw [kind_retarget, kind_withFields, hcom.definition]
    refine ⟨decl, ?_, _, _, hcom.fields_build (hs.rootsHaveFields pre hb), ?_, ?_, ?_⟩
    · rwa [hn, hcom.kind]
    · rw [← hfs, hk, forall₂_map_right_iff, forall₂_same]
      exact fun fd _ => ⟨_, .ofOperation _, rfl⟩
    · refine forall_mem_map.mpr fun offered hoff => ?_
      have hfr := hcom.fresh offered hoff
      simp only [RootType.has, hxs, hfs, Bool.or_eq_false_iff, contains_eq_mem,
        decide_eq_false_iff_not, any_eq_false, beq_iff_eq] at hfr
      rw [hn, hcom.kind, retargetIn_name]
      refine ⟨?_, hfr.1, offered, _, offers_of_mem_effects (hcom.offered offered hoff), rfl⟩
      intro hm
      obtain ⟨own, hown, heq⟩ := mem_map.mp hm
      exact hfr.2 own hown heq
    · rw [map_name_retargetIn]
      exact hcom.nodup
  · intro kind name defn he
    obtain ⟨pre, hb, hk, hn, hgen⟩ := exists_root_of_declared hcat he
    obtain ⟨after, ha, added, hcom⟩ := exists_completed hb
    refine ⟨after.2.build.retarget cat.settings,
      mem_map.mpr ⟨after, mem_filter.mpr ⟨ha, ?_⟩, ?_⟩, ?_⟩
    · simp [hcom.generated, hgen]
    · rw [hcom.kind, hk]
    · exact hcom.name.trans hn
  · refine ⟨cat.extensions.flatMap (·.2), perm_extensions hcat, ?_⟩
    have hmap : aug.typeExts = (cat.extensions.flatMap (·.2)).map fun extn =>
        (cat.augmentedExt extn).retarget cat.settings := by
      obtain ⟨dirs, -, rfl⟩ := augment_eq hs h
      rw [Parts.typeExts_document _ hs.others]
      simp [parts, map_flatMap, Function.comp_def]
    rw [hmap, forall₂_map_right_iff, forall₂_same]
    exact fun extn _ => ⟨augmentedExt_name cat extn, cat.forall₂_fields_augmentedExt extn⟩

end Catalog

end GraphApi
