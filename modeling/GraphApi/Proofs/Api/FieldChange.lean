import GraphApi.Proofs.Api.Covariance
import GraphApi.Proofs.Api.RelationshipClosure

/-!
# How members are changed

The change that the API makes to a member, as a value: it depends on the type that holds the member,
on the named type and the marks of the member, and on the type after which its generated types are
named. Main statements: `Catalog.growsTo_augment` and `Catalog.nodeChange_congr`.
-/

namespace GraphApi

open List FieldDef TypeBody

/-- What the API does to a member: nothing, further arguments, or another type. -/
inductive FieldChange where
  | none
  | arguments (ordering filter : Option Name)
  | output (type ordering filter : Name)
  | directions (type : Name)
deriving DecidableEq

def FieldChange.apply (field : FieldDef) : FieldChange → FieldDef
  | .none => field
  | .arguments ordering filter =>
    { field with arguments := queryArguments field.arguments field.type.wrappers.list ordering filter }
  | .output type ordering filter =>
    { field with
      type := field.type.wrappers.wrap type
      arguments := queryArguments field.arguments field.type.wrappers.list (some ordering) (some filter) }
  | .directions type => { field with type := .plain type, arguments := [] }

def Relationship.change (rel : Relationship) (naming : Name) : FieldChange :=
  if rel.isReflexive then .directions (rel.directionsName naming)
  else .output (rel.outputName naming) rel.orderingName (rel.filterName naming)

namespace Catalog

variable {decl : TypeDef} {cat : Catalog} {root : OperationKind × RootType}

def argumentsChange (cat : Catalog) (owner : Name) (field : FieldDef) : FieldChange :=
  if cat.takesArguments owner field.type.base then
    .arguments (cat.ordering? field.type.base) (if field.marked .cypher then none
      else some (filterName field.type.base))
  else .none

def nodeChange (cat : Catalog) (defn : TypeDef) (field : FieldDef) : FieldChange :=
  if field.marked .ignore then .none
  else match (field.describe cat.types).kind with
    | .node => cat.argumentsChange defn.name field
    | .relationship =>
      match cat.reached? defn field with
      | some rel =>
        if rel.isQueried cat && !field.marked .cypher then
          rel.change (cat.naming defn field.name)
        else .none
      | none => .none
    | .property | .other => .none

def rootChange (cat : Catalog) (owner : Name) (field : FieldDef) : FieldChange :=
  if (field.describe cat.types).kind = .node && !field.marked .ignore
    then cat.argumentsChange owner field else .none

def change (cat : Catalog) (name : Name) (field : FieldDef) : FieldChange :=
  match cat.types.get? name with
  | some defn => if defn.isNode then cat.nodeChange defn field else .none
  | none => if (cat.operationOf? name).isSome then cat.rootChange name field else .none

/-! ## The changes are those that are made -/

lemma apply_argumentsChange (cat : Catalog) (owner : Name) (fd : FieldDef) :
    (cat.argumentsChange owner fd).apply fd =
      { fd with arguments := nodeFieldArguments cat owner (fd.describe cat.types) } := by
  unfold argumentsChange nodeFieldArguments nodeArguments
  simp only [describe_type, describe_field, FieldInfo.isComputed, FieldInfo.isList, FieldInfo.wrappers]
  split <;> rfl

lemma apply_relationshipChange {rel : Relationship} (naming : Name) (types : NameMap TypeDef) (fd : FieldDef) :
    (rel.change naming).apply fd = rel.retype naming (fd.describe types) := by
  unfold Relationship.change Relationship.retype Relationship.arguments
  simp only [describe_field, FieldInfo.isList, FieldInfo.wrappers]
  split
  · rfl
  next hrefl => simp [FieldChange.apply, hrefl]

lemma apply_nodeChange (cat : Catalog) (defn : TypeDef) (fd : FieldDef) :
    (cat.nodeChange defn fd).apply fd = (fieldGain cat defn fd).field := by
  unfold nodeChange fieldGain
  simp only [FieldInfo.isIgnored, FieldInfo.isComputed, describe_field]
  split
  · rfl
  · cases (fd.describe cat.types).kind with
    | property => simp [FieldChange.apply, propertyGain]
    | node =>
      simp only [nodeFieldGain, describe_field]
      exact apply_argumentsChange cat defn.name fd
    | relationship =>
      cases cat.reached? defn fd with
      | none => rfl
      | some rel =>
        simp only [relationshipGain, Relationship.augmented, describe_name, describe_field]
        cases rel.isQueried cat <;> cases fd.marked .cypher
        · rfl
        · rfl
        · exact apply_relationshipChange _ cat.types fd
        · rfl
    | other => rfl

lemma apply_rootChange (cat : Catalog) (owner : Name) (fd : FieldDef) :
    (cat.rootChange owner fd).apply fd = rootField cat owner fd := by
  unfold rootChange rootField
  simp only [FieldInfo.isIgnored, describe_field]
  split
  · exact apply_argumentsChange cat owner fd
  · rfl

/-! ## Members that are changed alike -/

lemma change_of_mem_nodes (hs : cat.IsSorted) {defn : TypeDef} (h : defn ∈ cat.nodes)
    (fd : FieldDef) : cat.change defn.name fd = cat.nodeChange defn fd := by
  rw [change, get?_of_mem_nodes hs h]
  exact if_pos (mem_nodes.mp h).2

lemma apply_change (hs : cat.IsSorted) (name : Name) (fd : FieldDef) : (cat.change name fd).apply fd = cat.gain name fd := by
  unfold change gain
  cases hg : cat.types.get? name with
  | none =>
    cases (cat.operationOf? name).isSome with
    | true => exact apply_rootChange cat name fd
    | false => rfl
  | some defn =>
    cases hno : defn.isNode with
    | true => simpa [Option.filter, hno] using apply_nodeChange cat defn fd
    | false => simp [Option.filter, hno, operationOf?_of_get? hs hg, FieldChange.apply]

/-- Members that agree in name, named type and marks are changed alike if their types are named
alike. -/
theorem nodeChange_congr (hs : cat.IsSorted) {owner other : TypeDef} (how : owner ∈ cat.nodes)
    (ho : other ∈ cat.nodes) {fd want : FieldDef} (hn : fd.name = want.name)
    (hb : fd.type.base = want.type.base) (hig : fd.marked .ignore = want.marked .ignore)
    (hcm : fd.marked .cypher = want.marked .cypher)
    (hna : (fd.describe cat.types).kind = .relationship →
      cat.naming owner fd.name = cat.naming other want.name) :
      cat.nodeChange owner fd = cat.nodeChange other want := by
  unfold nodeChange
  rw [hig, hcm, ← kind_describe_congr hb]
  split
  · rfl
  · cases hk : (fd.describe cat.types).kind with
    | property => rfl
    | node =>
      unfold argumentsChange takesArguments
      rw [hb, hcm, operationOf?_of_mem_nodes hs how, operationOf?_of_mem_nodes hs ho]
    | relationship =>
      rw [hna hk]
      unfold reached?
      rw [hb, hn]
      -- the relationships differ in their owners only
      cases cat.types.get? want.type.base with
      | none => rfl
      | some desc =>
        dsimp only
        cases desc.endpoints? <;> rfl
    | other => rfl

/-! ## Types and extensions -/

lemma growsTo_augmentedType (hs : cat.IsSorted) (h : decl ∈ cat.types.values) : ∃ added,
    decl.body.GrowsTo cat.settings (fun fd => (cat.change decl.name fd).apply fd) added
      ((augmentedType cat decl).retarget cat.settings).body ∧
      (decl.body.kind = .interface → added = []) := by
  simp only [apply_change hs]
  rw [augmentedType_eq hs h]
  refine ⟨_, growsTo_withFields .., fun hk => ?_⟩
  have hobj : decl.isObject = false := by
    cases hb : decl.body <;> simp [hb, kind, TypeDef.isObject] at hk ⊢
  simp [addedFields, hobj]

lemma growsTo_augmentedExt (hs : cat.IsSorted) (extn : TypeExt) :
    extn.body.GrowsTo cat.settings (fun fd => (cat.change extn.name fd).apply fd) []
      ((cat.augmentedExt extn).retarget cat.settings).body := by
  simp only [apply_change hs, augmentedExt_eq]
  have hgr := growsTo_withFields cat.settings extn.body (cat.gain extn.name) []
  rwa [map_nil, ite_self, append_nil] at hgr

lemma eq_of_count_eq_one {items : List TypeDef} {name : Name}
    (h : (items.map (·.name)).count name = 1)
    {fst snd : TypeDef} (h1 : fst ∈ items) (h2 : snd ∈ items) (hn : fst.name = name)
    (heq : snd.name = name) : fst = snd := by
  have hlen : (items.filter fun item => item.name == name).length = 1 := by
    rw [← countP_eq_length_filter, ← h, List.count, countP_map]
    rfl
  obtain ⟨item, hi⟩ := length_eq_one_iff.mp hlen
  have hm {other : TypeDef} (ho : other ∈ items) (hn : other.name = name) : other = item := by
    have hfi : other ∈ items.filter fun item => item.name == name :=
      mem_filter.mpr ⟨ho, by simpa using hn⟩
    rwa [hi, mem_singleton] at hfi
  rw [hm h1 hn, hm h2 heq]

section Augmented

variable {cfg : Settings} {doc aug : Document} {cat : Catalog}
  (hcat : (ofDocument cfg doc).outcome = .ok cat)
  (hts : (doc.typeDefs.map (·.name)).Nodup) (hrs : (rootNames doc).Nodup)
include hcat hts hrs

lemma eq_declared_of_mem_roots (hr : root ∈ cat.roots) (hd : decl ∈ doc.typeDefs)
    (hn : root.2.name = decl.name) : root.2.definition = decl ∧ root.2.fields = decl.fields := by
  rcases declared_of_mem_roots hcat hr with ⟨hsrc, hfs⟩ | ⟨-, -, hcr⟩
  · obtain rfl : root.2.definition = decl := inj_on_of_nodup_map hts hsrc hd hn
    exact ⟨rfl, hfs⟩
  · have hgen := (mem_roots hcat hts hrs hr).1.mp (mem_map.mpr ⟨decl, hd, hn.symm⟩)
    simp [hcr] at hgen

lemma growsTo_root (haug : cat.augment.outcome = .ok aug) (hd : decl ∈ doc.typeDefs)
    (hr : decl.name ∈ rootNames doc) : ∃ defn ∈ aug.typeDefs, defn.name = decl.name ∧ ∃ added,
      decl.body.GrowsTo cat.settings (fun fd => (cat.change decl.name fd).apply fd)
      added defn.body := by
  have hs := isSorted_of_ok hcat
  obtain ⟨after, ha, hn⟩ := mem_map.mp (mem_names_keptRoots hcat hts hrs hr (mem_map_of_mem hd))
  obtain ⟨pre, hb, added, hcom⟩ := exists_completes (mem_of_mem_filter ha)
  have hbn : pre.2.name = decl.name := hcom.name.symm.trans hn
  obtain ⟨heq, hown⟩ := eq_declared_of_mem_roots hcat hts hrs hb hd hbn
  refine ⟨_, mem_typeDefs_of_mem_keptRoots hs haug ha, hn, ?_⟩
  simp only [← hbn, apply_change hs, gain_of_mem_roots hs hb]
  unfold RootType.build
  rw [hcom.definition, hcom.fields, heq, hown]
  exact ⟨_, growsTo_withFields ..⟩

/-- A document grows to its augmented form by the changes to its members. -/
theorem growsTo_augment (hns : ∀ name ∈ rootNames doc, Text.startsWith "_" name = false)
    (haug : cat.augment.outcome = .ok aug) :
    Document.GrowsTo cat.settings (fun name fd => (cat.change name fd).apply fd) doc aug := by
  have hs := isSorted_of_ok hcat
  have hxs := perm_extensions hcat
  refine ⟨fun decl hd => ?_, fun extn hx => ?_, fun extn hx => ?_⟩
  · have hun {defn : TypeDef} (hdef : defn ∈ aug.typeDefs) (hn : defn.name = decl.name) :
          ∀ other ∈ aug.typeDefs, other.name = decl.name → other = defn := by
      intro other ho heq
      obtain ⟨dirs, -, rfl⟩ := augment_eq hs haug
      have hco := count_typeDefs hcat hts hrs dirs.values hd (Decidable.or_iff_not_imp_left.mpr
        fun hnot => hns _ (not_not.mp hnot))
      exact eq_of_count_eq_one hco ho hdef heq hn
    by_cases hr : decl.name ∈ rootNames doc
    · obtain ⟨defn, hdef, hn, added, hgr⟩ := growsTo_root hcat hts hrs haug hd hr
      exact ⟨defn, hdef, hn, hun hdef hn, added, hgr, fun _ hnot => absurd hr hnot⟩
    · have hv : decl ∈ cat.types.values := by
        rw [ofDocument_values hcat hts, Document.innerTypes]
        exact mem_filter.mpr ⟨hd, by simpa using hr⟩
      obtain ⟨added, hgr, hno⟩ := growsTo_augmentedType hs hv
      have hm := mem_typeDefs_augment hs haug hv
      have hn : ((augmentedType cat decl).retarget cat.settings).name = decl.name :=
        augmentedType_name cat decl
      exact ⟨_, hm, hn, hun hm hn, added, hgr, fun hk _ => hno hk⟩
  · exact ⟨_, mem_typeExts_augment hs haug (hxs.mem_iff.mpr hx), augmentedExt_name cat extn,
      growsTo_augmentedExt hs extn⟩
  · obtain ⟨dirs, -, rfl⟩ := augment_eq hs haug
    rw [Parts.typeExts_document _ hs.others] at hx
    obtain ⟨_, hm, rfl⟩ := mem_map.mp hx
    obtain ⟨e, he, hm⟩ := mem_flatMap.mp hm
    obtain ⟨decl, hd, rfl⟩ := mem_map.mp hm
    exact ⟨decl, hxs.mem_iff.mp (mem_flatMap.mpr ⟨e, he, hd⟩), augmentedExt_name cat decl,
      growsTo_augmentedExt hs decl⟩

end Augmented

end Catalog

end GraphApi
