import GraphApi.Proofs.Api.Accounting
import GraphApi.Proofs.Api.DistinctNames

/-!
# What an augmented document refers to

`Catalog.Sources` says where a type comes from that an augmented document refers to. Main statement:
`Catalog.sources_of_mem_references`. Retargeting is set apart: it changes references to enabled
kinds only (`Definition.forall₂_leadsOn`).
-/

namespace GraphApi

open List TypeBody Document Relationship Mark FieldDef NameMap Run Definition

variable {name : Name} {body : TypeBody} {mark : Mark} {known : List DirectiveDef}
  {dirs : NameMap DirectiveDef}
  {doc : Document} {defn : TypeDef} {extn : TypeExt} {decl : List (Name × Name)}

def Document.references (doc : Document) : List Name :=
  doc.flatMap Definition.references

lemma undeclaredScalars_eq (doc : Document) : undeclaredScalars doc =
    (kindNames.filter fun kind => doc.references.contains kind &&
      !(doc.typeDefs.map (·.name)).contains kind).map scalarType := by
  unfold undeclaredScalars typeDefs
  rw [map_filterMap]
  refine congrArg _ (filter_congr fun kind _ => ?_)
  refine congrArg (fun names => doc.references.contains kind && !List.contains names kind)
    (filterMap_congr fun defn _ => ?_)
  cases defn <;> rfl

lemma Document.mem_references_of_mem {defn : Definition}
    (hd : defn ∈ doc) (h : name ∈ defn.references) : name ∈ doc.references :=
  mem_flatMap.mpr ⟨defn, hd, h⟩

/-! ## Bodies -/

/-- The types that a body refers to beside those of its members: the interfaces that it implements,
the types that it joins. -/
def TypeBody.joined : TypeBody → List Name
  | .object interfaces _ | .interface interfaces _ => interfaces
  | .union members => members
  | .scalar | .enum _ | .input _ => []

lemma TypeBody.references_eq (body : TypeBody) :
    body.references = body.joined ++ body.fields.flatMap FieldDef.references := by
  cases body <;> simp [references, joined, fields, fields?]

lemma TypeBody.joined_withFields (body : TypeBody) (fields : List FieldDef) :
    (body.withFields fields).joined = body.joined := by
  cases body <;> rfl

lemma TypeBody.mem_references : name ∈ body.references ↔ name ∈ body.joined ∨ ∃ fd ∈ body.fields,
    name ∈ fd.references := by
  rw [references_eq, mem_append, mem_flatMap]

lemma TypeBody.mem_references_of_joined (h : name ∈ body.joined) : name ∈ body.references :=
  mem_references.mpr (.inl h)

lemma FieldDef.mem_references_of_mem_inputValues {fd : FieldDef} {isInput : Bool}
    {value : Name × Name} (h : value ∈ fd.inputValues isInput) : value.2 ∈ fd.references := by
  rcases mem_append.mp h with h | h
  · split at h
    · rw [mem_singleton.mp h]
      exact mem_cons_self
    · simp at h
  · obtain ⟨arg, harg, rfl⟩ := mem_map.mp h
    exact mem_cons_of_mem _ (mem_map_of_mem harg)

/-! ## References before and after retargeting -/

/-- A reference before and after retargeting: it stays, or it leads to a generated type of its kind,
which is enabled. -/
def LeadsOn (cfg : Settings) (before after : Name) : Prop :=
  after = before ∨ ∃ kind, enabledKind? cfg before = some kind ∧
    (after = storedTypeName kind ∨ after = storedInputName kind)

variable (cfg : Settings)

lemma leadsOn_retargetRef {typeName : Name → Name}
    (htn : typeName = storedTypeName ∨ typeName = storedInputName) (type : TypeRef) :
    LeadsOn cfg type.base (retargetRef cfg typeName type).base := by
  refine (Catalog.base_retargetRef cfg typeName type).imp_right fun ⟨kind, hk, hb⟩ => ⟨kind, hk, ?_⟩
  rcases htn with rfl | rfl
  · exact .inl hb
  · exact .inr hb

lemma forall₂_leadsOn_arguments (args : List ArgumentDef) :
    Forall₂ (LeadsOn cfg) (args.map (·.type.base))
      ((args.map (·.retarget cfg)).map (·.type.base)) := by
  rw [map_map, forall₂_map_left_iff, forall₂_map_right_iff]
  exact forall₂_same.mpr fun arg _ => leadsOn_retargetRef cfg (.inr rfl) arg.type

lemma forall₂_leadsOn_refl (names : List Name) : Forall₂ (LeadsOn cfg) names names :=
  forall₂_same.mpr fun _ _ => .inl rfl

/-- Each reference of a member leads on to the one in its place after retargeting. -/
theorem FieldDef.forall₂_leadsOn (body : TypeBody) (fd : FieldDef) :
    Forall₂ (LeadsOn cfg) fd.references (fd.retargetIn cfg body.kind).references := by
  rw [retargetIn_eq]
  refine .cons ?_ (forall₂_leadsOn_arguments cfg fd.arguments)
  split
  · split
    · exact .inl rfl
    · exact leadsOn_retargetRef cfg (.inl rfl) fd.type
  · exact leadsOn_retargetRef cfg (.inr rfl) fd.type

/-- Each reference of a body leads on to the one in its place after retargeting. -/
theorem TypeBody.forall₂_leadsOn (body : TypeBody) :
    Forall₂ (LeadsOn cfg) body.references (body.retarget cfg).references := by
  have hjo : (body.retarget cfg).joined = body.joined := by cases body <;> rfl
  rw [references_eq, references_eq, hjo, fields_retarget]
  refine rel_append (forall₂_leadsOn_refl cfg _) ?_
  -- the members are retargeted one by one
  refine rel_flatMap (R := fun pre after => after = retargetIn cfg body.kind pre) ?_ ?_
  · rw [forall₂_map_right_iff]
    exact forall₂_same.mpr fun _ _ => rfl
  · rintro fd _ rfl
    exact FieldDef.forall₂_leadsOn cfg body fd

/-- Each reference of a definition leads on to the one in its place after retargeting. -/
theorem Definition.forall₂_leadsOn (defn : Definition) :
    Forall₂ (LeadsOn cfg) defn.references (defn.retarget cfg).references := by
  cases defn with
  | type defn => exact TypeBody.forall₂_leadsOn cfg defn.body
  | typeExt extn => exact TypeBody.forall₂_leadsOn cfg extn.body
  | directive defn => exact forall₂_leadsOn_arguments cfg defn.arguments
  | operation | fragment | schema | schemaExt => exact forall₂_leadsOn_refl cfg _

/-! ## Directive definitions -/

/-- What a known directive is defined by: the declared definition, or its own if the settings ask
for it. -/
def Mark.settled (decl : NameMap DirectiveDef) (cfg : Settings) (mark : Mark) : List DirectiveDef :=
  match decl.get? mark.word with
  | some defn => [defn]
  | none => if mark.isWanted cfg then [mark.definition] else []

def Mark.needsRoles (decl : NameMap DirectiveDef) (cfg : Settings) (mark : Mark) : Prop :=
  decl.get? mark.word = none ∧ mark.isWanted cfg ∧ mark = .auth .hasRole

section Directives

variable {types : NameMap TypeDef} {decl : NameMap DirectiveDef} {cfg : Settings}

lemma markDefinition_ok_iff : (markDefinition types decl cfg mark).outcome = .ok known ↔
    known = mark.settled decl cfg ∧
    (mark.needsRoles decl cfg → checkRoleType types = .ok ()) := by
  have hok (made : List DirectiveDef) : (Except.ok made : Except Fault (List DirectiveDef)) =
      .ok known ↔ known = made :=
    ⟨fun h => (Except.ok.inj h).symm, fun h => by rw [h]⟩
  unfold markDefinition settled needsRoles
  cases hg : decl.get? mark.word with
  | some defn => simpa using hok [defn]
  | none =>
    cases hwa : mark.isWanted cfg with
    | false => simp
    | true =>
      by_cases hro : mark = .auth .hasRole
      · subst hro
        cases hch : checkRoleType types with
        | error fault => simp [bind_outcome]
        | ok => simpa [hch, bind_outcome] using hok [definition (.auth .hasRole)]
      · simpa [hro, bind_outcome] using hok [mark.definition]

lemma markDefinitions_ok_iff {marks : List Mark} :
    (markDefinitions types decl cfg marks).outcome = .ok known ↔
    known = marks.flatMap (settled decl cfg) ∧ ∀ mark ∈ marks, mark.needsRoles decl cfg →
    checkRoleType types = .ok () := by
  induction marks generalizing known with
  | nil => simp [markDefinitions, eq_comm]
  | cons mark rest ih =>
    rw [forall_mem_cons, flatMap_cons]
    constructor
    · intro h
      obtain ⟨fst, h1, h⟩ := bind_ok_iff.mp h
      obtain ⟨os, hos, h⟩ := bind_ok_iff.mp h
      obtain ⟨rfl, hro⟩ := markDefinition_ok_iff.mp h1
      obtain ⟨rfl, hr⟩ := ih.mp hos
      exact ⟨(Except.ok.inj h).symm, hro, hr⟩
    · rintro ⟨rfl, hro, hr⟩
      exact bind_ok_iff.mpr ⟨_, markDefinition_ok_iff.mpr ⟨rfl, hro⟩,
        bind_ok_iff.mpr ⟨_, ih.mpr ⟨rfl, hr⟩, rfl⟩⟩

def otherDirectives (decl : NameMap DirectiveDef) : NameMap DirectiveDef :=
  decl.filter fun entry => !(Mark.all.map word).contains entry.1

lemma directiveDefinitions_ok_iff : (directiveDefinitions types decl cfg).outcome = .ok dirs ↔
    dirs = (all.flatMap (Mark.settled decl cfg)).map (fun defn => (defn.name, defn)) ++
    otherDirectives decl ∧
      ∀ mark ∈ Mark.all, mark.needsRoles decl cfg → checkRoleType types = .ok () := by
  constructor
  · intro h
    obtain ⟨known, hkn, h⟩ := bind_ok_iff.mp h
    obtain ⟨rfl, hro⟩ := markDefinitions_ok_iff.mp hkn
    exact ⟨(Except.ok.inj h).symm, hro⟩
  · rintro ⟨rfl, hro⟩
    exact bind_ok_iff.mpr ⟨_, markDefinitions_ok_iff.mpr ⟨rfl, hro⟩, rfl⟩

lemma mem_values_directiveDefinitions (h : (directiveDefinitions types decl cfg).outcome = .ok dirs)
    {defn : DirectiveDef} (hd : defn ∈ dirs.values) : defn ∈ decl.values ∨ ∃ mark :
    Mark, defn = mark.definition ∧ (mark = .auth .hasRole → checkRoleType types = .ok ()) := by
  obtain ⟨rfl, hro⟩ := directiveDefinitions_ok_iff.mp h
  simp only [values, map_append, map_map, mem_append, mem_map, mem_flatMap,
    Function.comp_apply] at hd
  rcases hd with ⟨_, ⟨mark, hmr, hset⟩, rfl⟩ | ⟨e, he, rfl⟩
  · unfold settled at hset
    split at hset
    next own hg =>
      rw [mem_singleton.mp hset]
      exact .inl (mem_map_of_mem (mem_of_get? hg))
    next hg =>
      split at hset
      next hwa => exact .inr ⟨mark, mem_singleton.mp hset, fun hrl => hro mark hmr ⟨hg, hwa, hrl⟩⟩
      · simp at hset
  · exact .inl (mem_map_of_mem (mem_of_mem_filter he))

lemma mem_references_of_mark (h : name ∈ (directive mark.definition).references) :
    name = "String" ∨ name = directionsEnum ∨ (mark = .auth .hasRole ∧ name = roleType) := by
  obtain ⟨arg, harg, rfl⟩ := mem_map.mp h
  cases mark with
  | auth kind => cases kind <;> simp [definition, markArgument] at harg ⊢ <;> simp [harg]
  | relation =>
    simp [definition, markArgument] at harg
    rcases harg with rfl | rfl | rfl | rfl <;> simp
  | mutationMeta =>
    simp [definition, markArgument] at harg
    rcases harg with rfl | rfl | rfl <;> simp
  | cypher | additionalLabels =>
    simp [definition, markArgument] at harg
    simp [harg]
  | ignore | id | unique | index => cases harg

end Directives

/-! ## Where references come from -/

lemma Document.mem_filterMap_iff {α : Type} {part? : Definition → Option α}
    {whole : α → Definition} (h : ∀ written item, part? written = some item ↔
      written = whole item) {item : α} : item ∈ doc.filterMap part? ↔ whole item ∈ doc := by
  simp only [mem_filterMap, h, exists_eq_right]

lemma Document.mem_typeDefs : defn ∈ doc.typeDefs ↔ type defn ∈ doc :=
  mem_filterMap_iff fun written _ => by cases written <;> simp [eq_comm]

lemma Document.mem_typeExts : extn ∈ doc.typeExts ↔ typeExt extn ∈ doc :=
  mem_filterMap_iff fun written _ => by cases written <;> simp [eq_comm]

lemma Document.mem_references_of_typeDef
    (hd : defn ∈ doc.typeDefs) (h : name ∈ defn.body.references) : name ∈ doc.references :=
  mem_references_of_mem (mem_typeDefs.mp hd) h

namespace Catalog

variable {owner defn : TypeDef} {fd : FieldDef} {name : Name} {rel : Relationship}

/-- Where a type comes from that the augmented document refers to: the document refers to it, it is
declared or generated, an operation type, built in, or the name of an input type that is taken from
an interface. -/
inductive Sources (cat : Catalog) (doc : Document) (name : Name) : Prop
  | referenced (h : name ∈ doc.references)
  | known (h : name ∈ cat.types.keys ∨ name ∈ cat.generated.keys)
  | operation (h : name ∈ (keptRoots cat.progress.roots).map (·.2.name))
  | builtin (h : name ∈ Builtin.scalarNames)
  | borrowed (h : cat.Borrows name)

section Sources

variable {cfg : Settings} {doc : Document} {cat : Catalog}
  (hcat : (ofDocument cfg doc).outcome = .ok cat)

lemma Sources.leadsOn {pre after : Name} (h : cat.Sources doc pre)
    (hle : LeadsOn cat.settings pre after) : cat.Sources doc after := by
  rcases hle with rfl | ⟨kind, hk, ha⟩
  · exact h
  · obtain ⟨ht, hin⟩ := mem_storedTypes_of_enabledKind? hk
    refine .known (.inr (mem_keys_generated_of_stored ?_))
    rcases ha with rfl | rfl
    · exact ht
    · exact hin

include hcat

lemma sources_of_mem_values (h : defn ∈ cat.types.values) {name : Name}
    (hn : name ∈ defn.body.references) : cat.Sources doc name :=
  .referenced (mem_references_of_typeDef (mem_typeDefs_of_mem_values hcat h) hn)

lemma sources_of_mem_extensions (h : extn ∈ cat.extensions.flatMap (·.2)) {name : Name}
    (hn : name ∈ extn.body.references) : cat.Sources doc name := by
  have hm := (perm_extensions hcat).mem_iff.mp h
  exact .referenced (mem_references_of_mem (mem_typeExts.mp hm) hn)

lemma sources_of_mem_membersOf (ho : owner ∈ cat.types.values) (hf : fd ∈ cat.membersOf owner)
    (hn : name ∈ fd.references) : cat.Sources doc name := by
  rcases mem_append.mp hf with hf | hf
  · exact sources_of_mem_values hcat ho (mem_references.mpr (.inr ⟨fd, hf, hn⟩))
  · obtain ⟨extn, hx, hf⟩ := mem_flatMap.mp hf
    exact sources_of_mem_extensions hcat (mem_extensions_of_mem_extensionsOf hx)
      (mem_references.mpr (.inr ⟨fd, hf, hn⟩))

lemma sources_of_mem_memberTypes (h : name ∈ cat.memberTypes) : cat.Sources doc name := by
  obtain ⟨fd, hf, rfl⟩ := mem_map.mp h
  have hm {body : TypeBody} (hf : fd ∈ body.fields) : fd.type.base ∈ body.references :=
    mem_references.mpr (.inr ⟨fd, hf, mem_cons_self⟩)
  rcases mem_append.mp hf with hf | hf
  · obtain ⟨defn, hd, hf⟩ := mem_flatMap.mp hf
    exact sources_of_mem_values hcat hd (hm hf)
  · obtain ⟨extn, hx, hf⟩ := mem_flatMap.mp hf
    exact sources_of_mem_extensions hcat hx (hm hf)

lemma sources_of_accounts (hd : ∀ value ∈ decl, cat.Sources doc value.2)
    {value : Name × Name} (h : cat.Accounts decl value) : cat.Sources doc value.2 := by
  cases h with
  | declared h => exact hd value h
  | known h => exact .known h
  | property _ hsrc =>
    rcases hsrc with hbi | hm
    · exact .builtin hbi
    · exact sources_of_mem_memberTypes hcat hm
  | borrowed h => exact .borrowed h

lemma sources_of_accountsField (hd : ∀ value ∈ decl, cat.Sources doc value.2)
    (h : cat.AccountsField decl true fd) (hn : name ∈ fd.references) : cat.Sources doc name := by
  rcases mem_cons.mp hn with rfl | hn
  · exact sources_of_accounts hcat hd (h.type rfl)
  · obtain ⟨arg, harg, rfl⟩ := mem_map.mp hn
    exact sources_of_accounts hcat hd (h.arguments arg harg)

omit hcat in
lemma sources_of_mem_valuesOf {body : TypeBody}
    (hb : ∀ name ∈ body.references, cat.Sources doc name)
    {isInput : Bool} {m : Name} : ∀ value ∈ valuesOf body.fields isInput m,
    cat.Sources doc value.2 := by
  intro value hv
  obtain ⟨fd, hf, hv⟩ := mem_flatMap.mp hv
  refine hb _ (mem_references.mpr (.inr ⟨fd, mem_of_mem_filter hf, ?_⟩))
  exact mem_references_of_mem_inputValues hv

/-! ## Declared types, extensions and operation types -/

lemma sources_of_body {body after : TypeBody} (hb : ∀ name ∈ body.references, cat.Sources doc name)
    (hjo : after.joined = body.joined)
    (hfs : ∀ fd ∈ after.fields, cat.AccountsField (valuesOf body.fields true fd.name) true fd)
    (hn : name ∈ after.references) : cat.Sources doc name := by
  rcases mem_references.mp hn with hn | ⟨fd, hf, hn⟩
  · rw [hjo] at hn
    exact hb name (mem_references_of_joined hn)
  · exact sources_of_accountsField hcat (sources_of_mem_valuesOf hb) (hfs fd hf) hn

lemma sources_augmentedType (h : defn ∈ cat.types.values)
    (hn : name ∈ (augmentedType cat defn).body.references) : cat.Sources doc name := by
  have hjo : (augmentedType cat defn).body.joined = defn.body.joined := by
    rw [augmentedType_eq (isSorted_of_ok hcat) h]
    exact joined_withFields ..
  exact sources_of_body hcat (fun _ => sources_of_mem_values hcat h) hjo
    (fun _ hf => accountsField_augmentedType hcat h true hf) hn

lemma sources_augmentedExt (h : extn ∈ cat.extensions.flatMap (·.2))
    (hn : name ∈ (cat.augmentedExt extn).body.references) : cat.Sources doc name := by
  have hjo : (cat.augmentedExt extn).body.joined = extn.body.joined := by
    rw [augmentedExt_eq]
    exact joined_withFields ..
  exact sources_of_body hcat (fun _ => sources_of_mem_extensions hcat h) hjo
    (fun _ hf => accountsField_augmentedExt hcat h true hf) hn

lemma sources_root {root : OperationKind × RootType} (h : root ∈ cat.progress.roots)
    (hn : name ∈ root.2.build.body.references) : cat.Sources doc name := by
  obtain ⟨pre, hb, hdef, hfs⟩ := accountsField_root hcat h
  have hjo : root.2.build.body.joined = pre.2.definition.body.joined := by
    rw [← hdef]
    exact joined_withFields ..
  -- a declared operation type stands in the document, a created one refers to nothing
  have hbd : (∀ name ∈ pre.2.definition.body.references, cat.Sources doc name) ∧
      pre.2.fields = pre.2.definition.fields := by
    rcases declared_of_mem_roots hcat hb with ⟨hd, heq⟩ | ⟨hem, heq, -⟩
    · exact ⟨fun name hn => .referenced (mem_references_of_typeDef hd hn), heq⟩
    · refine ⟨fun name hn => by simp [hem, TypeBody.references] at hn, heq.trans ?_⟩
      simp [TypeDef.fields, hem, fields, TypeBody.fields?]
  rw [hbd.2] at hfs
  exact sources_of_body hcat hbd.1 hjo (hfs true) hn

/-! ## Generated types -/

omit hcat in
lemma sources_of_augments (hs : cat.IsSorted) {kind : OperationKind} {type : Name}
    (h : cat.augments kind type) : cat.Sources doc type := by
  obtain ⟨owner, -, -, -, hg⟩ := node_of_augments hs h
  exact .known (.inl (mem_keys_of_get? hg))

lemma sources_of_hasProperties (h : cat.HasProperties rel) {info : FieldInfo}
    (hin : info ∈ rel.properties) : cat.Sources doc info.field.type.base := by
  obtain ⟨fd, hf, rfl, -⟩ := h info hin
  obtain ⟨owner, ho, hm⟩ := mem_flatMap.mp hf
  rw [describe_field]
  exact sources_of_mem_membersOf hcat ho (mem_of_mem_filter hm) mem_cons_self

lemma sources_type_of_mem_queryDefs (hno : owner ∈ cat.nodes) (hf : fd ∈ cat.membersOf owner)
    (hre : cat.Reaches owner fd rel) (h : defn ∈ rel.queryDefs cat owner (fd.describe cat.types))
    (hin : defn.body.isInput = false) : ∀ m ∈ defn.fields, cat.Sources doc m.type.base := by
  have hs := isSorted_of_ok hcat
  obtain ⟨hq, hca⟩ := mem_queryDefs.mp h
  have hen := hq
  simp only [isQueried, Bool.and_eq_true] at hen
  intro m hm
  rcases hca with rfl | ⟨-, rfl⟩ | ⟨-, rfl | rfl | ⟨-, rfl⟩⟩
  · rcases mem_append.mp hm with hm | hm
    · obtain ⟨info, hif, rfl⟩ := mem_map.mp hm
      exact sources_of_hasProperties hcat (hasProperties_of_reaches hs hre) hif
    · rcases mem_pair.mp hm with rfl | rfl
      · exact .builtin (by decide)
      · unfold relatedType
        split
        · exact sources_of_augments hs hen.1
        · exact sources_of_augments hs hen.2
  · -- each direction leads to the output type, which comes with it
    have hou := mem_keys_generated_of_registers hs
      (registers_of_reaches hno hf hre (mem_queryDefs.mpr ⟨hq, .inl rfl⟩))
    rcases mem_pair.mp hm with rfl | rfl
    · exact .known (.inr (by simpa [outputType] using hou))
    · exact .known (.inr (by simpa [outputType] using hou))
  · cases hin
  · cases hm
  · cases hin

lemma sources_type_of_mem_mutationDefs (hrel : cat.Relates owner fd rel)
    (h : defn ∈ rel.mutationDefs cat) (hin : defn.body.isInput = false) :
    ∀ m ∈ defn.fields, cat.Sources doc m.type.base := by
  have hs := isSorted_of_ok hcat
  obtain ⟨hmut, ⟨-, rfl⟩ | ⟨action, -, rfl⟩⟩ := mem_mutationDefs.mp h
  · cases hin
  · simp only [isMutable, Bool.and_eq_true, canMutate] at hmut
    intro m hm
    rcases mem_append.mp hm with hm | hm
    · rcases mem_pair.mp hm with rfl | rfl
      · exact sources_of_augments hs hmut.1.1.1
      · exact sources_of_augments hs hmut.2.1.1
    · split at hm
      · obtain ⟨info, hif, rfl⟩ := mem_map.mp hm
        have ht : info.payloadField.type = info.field.type := by
          unfold FieldInfo.payloadField
          split <;> rfl
        rw [ht]
        exact sources_of_hasProperties hcat (hasProperties_of_relates hs hrel) hif
      · simp at hm

lemma sources_type_of_registers (h : cat.Registers defn) (hin : defn.body.isInput = false) :
    ∀ m ∈ defn.fields, cat.Sources doc m.type.base := by
  cases h with
  | field hno hf h =>
    rcases mem_fieldTypes.mp h with ⟨rel, hre, h⟩ | ⟨rel, hrel, h⟩
    · exact sources_type_of_mem_queryDefs hcat hno hf hre h hin
    · exact sources_type_of_mem_mutationDefs hcat hrel h hin
  | selection => cases hin
  | input _ _ _ _ h =>
    rcases mem_types_inputMutations.mp h with ⟨-, rfl⟩ | ⟨-, rfl | rfl | ⟨-, rfl⟩⟩ <;>
      cases hin
  | filter => cases hin
  | ordering =>
    intro m hm
    cases hm

omit hcat in
lemma sources_type_of_isFixed (h : cat.IsFixed defn) (hin : defn.body.isInput = false) :
    ∀ m ∈ defn.fields, cat.Sources doc m.type.base := by
  intro m hm
  obtain ⟨kind, ms, hms, rfl | rfl⟩ | ⟨-, rfl⟩ | rfl := isFixed_cases h
  · obtain ⟨arg, harg, rfl⟩ := mem_map.mp hm
    exact .builtin (hms arg harg)
  · cases hin
  · cases hin
  · cases hm

omit hcat in
lemma joined_of_registers (h : cat.Registers defn) : defn.body.joined = [] := by
  cases h with
  | field _ _ h =>
    rcases mem_fieldTypes.mp h with ⟨rel, -, h⟩ | ⟨rel, -, h⟩
    · obtain ⟨-, rfl | ⟨-, rfl⟩ | ⟨-, rfl | rfl | ⟨-, rfl⟩⟩⟩ := mem_queryDefs.mp h <;> rfl
    · obtain ⟨-, ⟨-, rfl⟩ | ⟨action, -, rfl⟩⟩ := mem_mutationDefs.mp h <;> rfl
  | selection => rfl
  | input _ _ _ _ h => rcases mem_types_inputMutations.mp h with ⟨-, rfl⟩ | ⟨-,
      rfl | rfl | ⟨-, rfl⟩⟩ <;> rfl
  | filter => rfl
  | ordering => rfl

omit hcat in
lemma joined_of_isFixed (h : cat.IsFixed defn) : defn.body.joined = [] := by
  obtain ⟨kind, ms, -, rfl | rfl⟩ | ⟨-, rfl⟩ | rfl := isFixed_cases h <;> rfl

lemma sources_of_mem_generated {e : Name × TypeDef} (h : e ∈ cat.generated)
    (hn : name ∈ e.2.body.references) : cat.Sources doc name := by
  have hs := isSorted_of_ok hcat
  -- the arguments that generated types take over are those of declared members
  have hca : ∀ value ∈ cat.carriedValues, cat.Sources doc value.2 := by
    intro value hv
    obtain ⟨fd, hf, hv⟩ := mem_flatMap.mp hv
    obtain ⟨owner, ho, hm⟩ := mem_flatMap.mp hf
    exact sources_of_mem_membersOf hcat ho (mem_of_mem_filter hm)
      (mem_references_of_mem_inputValues hv)
  obtain ⟨hjo, hb, hts⟩ : e.2.body.joined = [] ∧
      cat.AccountsBody (fun _ => cat.carriedValues) e.2.body ∧
      (e.2.body.isInput = false → ∀ m ∈ e.2.fields, cat.Sources doc m.type.base) := by
    rcases (mem_generated hs h).2 with hreg | hfi
    · exact ⟨joined_of_registers hreg, accountsBody_of_registers hs hreg,
        sources_type_of_registers hcat hreg⟩
    · exact ⟨joined_of_isFixed hfi, accountsBody_of_isFixed hfi, sources_type_of_isFixed hfi⟩
  rcases mem_references.mp hn with hn | ⟨fd, hf, hn⟩
  · simp [hjo] at hn
  · have hac := hb fd hf
    rcases mem_cons.mp hn with rfl | hn
    · cases hin : e.2.body.isInput with
      | false => exact hts hin fd hf
      | true => exact sources_of_accounts hcat hca (hac.type hin)
    · obtain ⟨arg, harg, rfl⟩ := mem_map.mp hn
      exact sources_of_accounts hcat hca (hac.arguments arg harg)

/-! ## The whole document -/

omit hcat in
lemma directionsEnum_defined (cat : Catalog) :
    directionsEnum ∈ cat.types.keys ∨ directionsEnum ∈ cat.generated.keys := by
  by_cases hd : directionsEnum ∈ cat.types.keys
  · exact .inl hd
  · refine .inr ?_
    unfold generated completeGenerated
    rw [if_neg (mt contains_iff.mp hd)]
    exact Progress.mem_keys_register.mpr (.inr rfl)

lemma sources_directive {dirs : NameMap DirectiveDef}
    (h : (directiveDefinitions cat.types cat.directives cat.settings).outcome = .ok dirs)
    {defn : DirectiveDef} (hdef : defn ∈ dirs.values) (hn : name ∈ (directive defn).references) :
    cat.Sources doc name := by
  rcases mem_values_directiveDefinitions h hdef with hd | ⟨mark, rfl, hro⟩
  · have hm : defn ∈ doc.directiveDefs := by
      rw [directives_eq hcat] at hd
      obtain ⟨e, he, rfl⟩ := mem_map.mp hd
      obtain ⟨own, hown, rfl⟩ := mem_map.mp (mem_of_mem_ofList he)
      exact hown
    have hwr : directive defn ∈ doc :=
      (mem_filterMap_iff fun written _ => by cases written <;> simp [eq_comm]).mp hm
    exact .referenced (mem_references_of_mem hwr hn)
  · rcases mem_references_of_mark hn with rfl | rfl | ⟨hrl, rfl⟩
    · exact .builtin (by decide)
    · exact .known cat.directionsEnum_defined
    · -- the enum of roles has been looked up
      have hch := hro hrl
      unfold checkRoleType at hch
      cases hg : cat.types.get? roleType with
      | none => simp [hg] at hch
      | some defn => exact .known (.inl (mem_keys_of_get? hg))

lemma sources_schema {schema : SchemaDef} (h : cat.schema = some schema)
    (hn : name ∈ (Definition.schema (completeSchema cat.progress.roots schema)).references) :
    cat.Sources doc name := by
  have hm : schema ∈ doc.schemaDefs := by
    rw [schema_eq hcat] at h
    exact mem_of_getLast? h
  have hwr : Definition.schema schema ∈ doc :=
    (mem_filterMap_iff fun written _ => by cases written <;> simp [eq_comm]).mp hm
  obtain ⟨op, hop, rfl⟩ := mem_map.mp hn
  rcases mem_append.mp hop with hop | hop
  · exact .referenced (mem_references_of_mem hwr (mem_map_of_mem hop))
  · obtain ⟨root, hr, rfl⟩ := mem_map.mp hop
    have hem := (mem_filter.mp hr).2
    simp only [Bool.and_eq_true, contains_eq_mem, decide_eq_true_eq] at hem
    exact .operation hem.2

/-- Whatever an augmented document refers to has a source. -/
theorem sources_of_mem_references {aug : Document} (h : cat.augment.outcome = .ok aug)
    (hn : name ∈ aug.references) : cat.Sources doc name := by
  have hs := isSorted_of_ok hcat
  obtain ⟨dirs, hdr, rfl⟩ := augment_eq hs h
  rw [Parts.document_eq _ hs.others] at hn
  obtain ⟨defn, hdef, hn⟩ := mem_flatMap.mp hn
  -- what a definition refers to comes from what it referred to before it was retargeted
  have hb (pre : Definition) (hso : ∀ name ∈ pre.references, cat.Sources doc name)
      (heq : pre.retarget cat.settings = defn) : cat.Sources doc name := by
    subst heq
    obtain ⟨earlier, hea, hle⟩ := exists_of_forall₂ (pre.forall₂_leadsOn cat.settings).flip hn
    exact (hso earlier hea).leadsOn hle
  simp only [parts, mem_append, mem_map, Option.mem_toList] at hdef
  rcases hdef with ((((⟨own, hown, heq⟩ | ⟨schema, hsh, rfl⟩) | ⟨type, ht, heq⟩) | ⟨scalar, hsc,
    rfl⟩) | ⟨extn, hx, heq⟩) | ho
  · exact hb (.directive own) (fun _ => sources_directive hcat hdr hown) heq
  · obtain ⟨own, hown, rfl⟩ := Option.map_eq_some_iff.mp hsh
    exact sources_schema hcat hown hn
  · refine hb (.type type) (fun name hn => ?_) heq
    rcases ht with (⟨decl, hd, rfl⟩ | ⟨root, hr, rfl⟩) | hgen
    · exact sources_augmentedType hcat hd hn
    · exact sources_root hcat (mem_of_mem_filter hr) hn
    · obtain ⟨e, he, rfl⟩ := mem_map.mp (mem_keptTypes.mp hgen).1
      exact sources_of_mem_generated hcat he hn
  · obtain ⟨kind, -, rfl⟩ := mem_map.mp hsc
    cases hn
  · refine hb (.typeExt extn) (fun name hn => ?_) heq
    obtain ⟨e, he, hx⟩ := mem_flatMap.mp hx
    obtain ⟨own, hown, rfl⟩ := mem_map.mp hx
    exact sources_augmentedExt hcat (mem_flatMap.mpr ⟨e, he, hown⟩) hn
  · have hm : defn ∈ doc.filter Definition.isOther := others_eq hcat ▸ ho
    exact .referenced (mem_references_of_mem (mem_of_mem_filter hm) hn)

end Sources

end Catalog

end GraphApi
