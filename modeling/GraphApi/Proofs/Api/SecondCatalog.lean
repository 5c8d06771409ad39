import GraphApi.Proofs.Api.Standstill

/-!
# Augmented documents, sorted again

A plain document has a plain catalog (`Document.IsPlain.catalog`). Its augmentation leaves the names
of the operation types and declares what they gained (`Catalog.declaredRoot?_augment`), and the
types of the second catalog are those of the first, settled, and generated ones
(`Catalog.innerTypes_augment`).
-/

namespace GraphApi

open List Document Catalog TypeDef NameMap

/-- A document without relationships that refers to its own types and to built-in scalars, temporal
and spatial kinds. -/
structure Document.IsPlain (doc : Document) : Prop where
  names : ((typeDefs doc).map (·.name)).Nodup
  operations : (Catalog.rootNames doc).Nodup
  /-- No type has a name with a leading underscore, and no operation is bound to such a name. -/
  underscores : ∀ name ∈ (typeDefs doc).map (·.name) ++ Catalog.rootNames doc,
    Text.startsWith "_" name = false
  relations : ∀ directive ∈ directives doc, directive.name ≠ Mark.relation.word
  references : ∀ name ∈ Document.references doc,
    name ∈ (typeDefs doc).map (·.name) ∨ (builtinCategory? (baseKind name)).isSome

/-! ## Plain documents have plain catalogs -/

lemma relationDirective_eq_none {dirs : List Directive}
    (h : ∀ dir ∈ dirs, dir.name ≠ Mark.relation.word) : relationDirective dirs = none := by
  rw [relationDirective, findDirective, find?_eq_none]
  intro dir hdir
  simpa using h dir hdir

lemma FieldDef.marked_eq_false {fd : FieldDef} {mark : Mark}
    (h : ∀ dir ∈ fd.directives, dir.name ≠ mark.word) : fd.marked mark = false := by
  rw [marked, has, hasDirective, any_eq_false]
  intro dir hdir
  simpa using h dir hdir

lemma TypeBody.exists_site {body : TypeBody} {fd : FieldDef} (h : fd ∈ body.fields)
    (place : DirectivePlace) : ∃ site ∈ body.sites place, site.directives = fd.directives := by
  cases body with
  | object interfaces fields =>
    exact ⟨_, mem_flatMap.mpr ⟨fd, h, mem_cons_self⟩, rfl⟩
  | interface interfaces fields =>
    exact ⟨_, mem_flatMap.mpr ⟨fd, h, mem_cons_self⟩, rfl⟩
  | input fields =>
    exact ⟨_, mem_flatMap.mpr ⟨fd, h, mem_cons_self⟩, rfl⟩
  | scalar => cases h
  | union ms => cases h
  | enum vals => cases h

namespace Document.IsPlain

variable {doc : Document} (h : doc.IsPlain) {name : Name}
include h

lemma lacksRelation {defn : Definition} (hd : defn ∈ doc) {site : DirectiveSite}
    (hsi : site ∈ defn.sites) : ∀ dir ∈ site.directives, dir.name ≠ Mark.relation.word := by
  intro dir hdir
  refine h.relations dir (mem_flatMap.mpr ⟨site, ?_, hdir⟩)
  exact mem_flatMap.mpr ⟨defn, hd, hsi⟩

lemma underscore_of_name (hn : name ∈ doc.typeDefs.map (·.name)) :
    Text.startsWith "_" name = false :=
  h.underscores name (mem_append_left _ hn)

lemma underscore_of_root (hn : name ∈ rootNames doc) : Text.startsWith "_" name = false :=
  h.underscores name (mem_append_right _ hn)

lemma field {defn : Definition} (hdef : defn ∈ doc) {body : TypeBody}
    (hre : ∀ name ∈ body.references, name ∈ defn.references) {place : DirectivePlace}
    (hsi : ∀ site ∈ body.sites place, site ∈ defn.sites) {fd : FieldDef} (hf : fd ∈ body.fields) :
    fd.IsPlain := by
  obtain ⟨site, hst, hdr⟩ := TypeBody.exists_site hf place
  have hun := h.lacksRelation hdef (hsi site hst)
  rw [hdr] at hun
  refine ⟨FieldDef.marked_eq_false hun, ?_⟩
  have hrf : fd.type.base ∈ body.references :=
    TypeBody.mem_references.mpr (.inr ⟨fd, hf, mem_cons_self⟩)
  rcases h.references _ (mem_references_of_mem hdef (hre _ hrf)) with hd | hbi
  · exact .inl (h.underscore_of_name hd)
  · exact .inr hbi

lemma type {defn : TypeDef} (hd : defn ∈ doc.typeDefs) :
    relationDirective defn.directives = none ∧ ∀ fd ∈ defn.fields, fd.IsPlain := by
  have hm := mem_typeDefs.mp hd
  constructor
  · exact relationDirective_eq_none
      (h.lacksRelation hm (mem_cons_self : _ ∈ (Definition.type defn).sites))
  · intro fd hf
    exact h.field hm (fun _ hn => hn) (fun _ hsi => mem_cons_of_mem _ hsi) hf

lemma extension {extn : TypeExt} (hx : extn ∈ doc.typeExts) : ∀ fd ∈ extn.fields, fd.IsPlain := by
  intro fd hf
  exact h.field (mem_typeExts.mp hx) (fun _ hn => hn) (fun _ hsi => mem_cons_of_mem _ hsi) hf

/-- A plain document has a plain catalog. -/
theorem catalog {cfg : Settings} {cat : Catalog} (hcat : (ofDocument cfg doc).outcome = .ok cat) :
    cat.IsPlain where
  names := by
    refine forall_mem_map.mpr fun e he => ?_
    have hv := mem_typeDefs_of_mem_values hcat (mem_map_of_mem he)
    rw [← (isSorted_of_ok hcat).nameOfType e he]
    exact h.underscore_of_name (mem_map_of_mem hv)
  relation := fun defn hv => (h.type (mem_typeDefs_of_mem_values hcat hv)).1
  members := fun defn hv => (h.type (mem_typeDefs_of_mem_values hcat hv)).2
  extensions := fun extn hx => h.extension ((perm_extensions hcat).mem_iff.mp hx)
  roots := by
    intro root hr fd hf
    obtain ⟨decl, hd, hfs, _⟩ := exists_declaredRoot hcat hr
    rw [hfs] at hf
    cases decl with
    | none => cases hf
    | some defn =>
      exact (h.type ((mem_of_mem_declaredRoots hd).2 defn rfl).2).2 fd hf

end Document.IsPlain

namespace Catalog

variable {defn : TypeDef} {cat : Catalog} {names : List Name} {defns : List TypeDef}

/-! ## Generated types stand for nothing -/

lemma classification_eq_none (h : defn.body.isStructural = false ∨ isStoredTypeName defn.name) :
    defn.classification = none := by
  rcases h with hb | hn
  · simp [classification, hb]
  · simp [classification, hn]

lemma standsForNothing_of_registers (hrl : cat.LacksRelations) (h : cat.Registers defn) :
    defn.body.isStructural = false := by
  cases h with
  | field hno hf hm => exact absurd hm (hrl.not_mem_fieldTypes (hrl.members _ hno _ hf) _)
  | selection => rfl
  | input _ _ _ _ hm => rcases mem_types_inputMutations.mp hm with ⟨-, rfl⟩ | ⟨-,
      rfl | rfl | ⟨-, rfl⟩⟩ <;> rfl
  | filter => rfl
  | ordering => rfl

lemma standsForNothing_of_isFixed (h : cat.IsFixed defn) :
    defn.body.isStructural = false ∨ isStoredTypeName defn.name := by
  obtain ⟨kind, ms, -, rfl | rfl⟩ | ⟨-, rfl⟩ | rfl := isFixed_cases h
  · right
    simp [isStoredTypeName, Text.startsWith, storedTypeName]
  · exact .inl rfl
  · exact .inl rfl
  · exact .inl rfl

lemma classification_of_mem_keptTypes (hs : cat.IsSorted) (hrl : cat.LacksRelations)
    (h : defn ∈ keptTypes cat.types cat.generated) (cfg : Settings) :
    (defn.retarget cfg).classification = none := by
  obtain ⟨e, he, rfl⟩ := mem_map.mp (mem_keptTypes.mp h).1
  have hno : e.2.body.isStructural = false ∨ isStoredTypeName e.2.name := by
    rcases (mem_generated hs he).2 with hreg | hfi
    · exact .inl (standsForNothing_of_registers hrl hreg)
    · exact standsForNothing_of_isFixed hfi
  refine classification_eq_none ?_
  rw [isStructural_eq] at hno ⊢
  simpa [retarget] using hno

/-! ## Extensions -/

lemma filter_flatMap_extensions {exts : NameMap (List TypeExt)} (hnd : exts.keys.Nodup)
    (hns : ∀ e ∈ exts, ∀ extn ∈ e.2, extn.name = e.1) (type : Name) :
    (exts.flatMap (·.2)).filter (·.name == type) = (exts.get? type).getD [] := by
  induction exts with
  | nil => rfl
  | cons e rest ih =>
    obtain ⟨hnew, hr⟩ := nodup_cons.mp hnd
    have hos := ih hr (forall_mem_cons.mp hns).2
    rw [flatMap_cons, filter_append, hos]
    by_cases hk : e.1 = type
    · have hown : e.2.filter (·.name == type) = e.2 := by
        rw [filter_eq_self]
        intro extn hx
        simpa [hk] using hns e mem_cons_self extn hx
      have hno : get? rest type = none := get?_eq_none_iff.mpr (hk ▸ hnew)
      simp [get?, hk, hown, hno]
    · have hown : e.2.filter (·.name == type) = [] := by
        rw [filter_eq_nil_iff]
        intro extn hx
        simpa [hns e mem_cons_self extn hx] using hk
      simp [get?, hk, hown]

lemma filter_typeExts_augment {aug : Document} (hs : cat.IsSorted)
    (h : cat.augment.outcome = .ok aug) (type : Name) :
    aug.typeExts.filter (·.name == type) = (cat.extensionsOf type).map cat.settledExt := by
  obtain ⟨dirs, _, rfl⟩ := augment_eq hs h
  have hxs : (cat.parts dirs.values).extensions.map (·.retarget cat.settings) =
      (cat.extensions.flatMap (·.2)).map cat.settledExt := by
    simp only [parts, map_flatMap, map_map]
    rfl
  have hns : ((fun extn : TypeExt => extn.name == type) ∘ cat.settledExt) = fun extn =>
      extn.name == type :=
    funext fun extn => by simp
  rw [Parts.typeExts_document _ hs.others, hxs, filter_map, hns,
    filter_flatMap_extensions hs.nodupExtensions hs.nameOfExtension]
  rfl

lemma names_settledExt (cat : Catalog) (extn : TypeExt) :
    (cat.settledExt extn).fields.map (·.name) = extn.fields.map (·.name) := by
  refine map_eq_of_forall₂ ((forall₂_fields_augmentedExt cat extn).imp ?_)
  rintro decl fd ⟨gained, hbe, rfl⟩
  rw [retargetIn_name, hbe.gains.name]

/-! ## Operation types keep their names -/

lemma rootName_completeSchema {roots : Roots} {schema : SchemaDef}
    (hrs : ∀ root ∈ roots, root.2.name = rootName (some schema) root.1) (kind : OperationKind) :
    rootName (some (completeSchema roots schema)) kind = rootName (some schema) kind := by
  unfold rootName completeSchema
  dsimp only
  rw [filter_append]
  generalize hadd : (roots.filter fun e => !(schema.operations.map (·.1)).contains e.1 &&
    ((keptRoots roots).map (·.2.name)).contains e.2.name) = added
  have hm : ∀ e ∈ added, e.1 ∉ schema.operations.map (·.1) ∧
      e.2.name = rootName (some schema) e.1 := by
    intro e he
    rw [← hadd] at he
    obtain ⟨hr, hnew⟩ := mem_filter.mp he
    simp only [Bool.and_eq_true, Bool.not_eq_true', contains_eq_mem,
      decide_eq_false_iff_not] at hnew
    exact ⟨hnew.1, hrs e hr⟩
  by_cases hd : kind ∈ schema.operations.map (·.1)
  · -- Nothing is added for a kind that has an operation type.
    have hno : (added.map fun e => (e.1, e.2.name)).filter (·.1 == kind) = [] := by
      rw [filter_eq_nil_iff]
      rintro op hop hk
      obtain ⟨e, he, rfl⟩ := mem_map.mp hop
      have heq : e.1 = kind := by simpa using hk
      exact (hm e he).1 (heq ▸ hd)
    rw [hno, append_nil]
  · have hno : schema.operations.filter (·.1 == kind) = [] := by
      rw [filter_eq_nil_iff]
      intro op hop hk
      have heq : op.1 = kind := by simpa using hk
      exact hd (heq ▸ mem_map_of_mem hop)
    have hus : rootName (some schema) kind = usualRootName kind := by simp [rootName, hno]
    rw [hno, nil_append, getLast?_nil, Option.map_none, Option.getD_none]
    cases hl : ((added.map fun e => (e.1, e.2.name)).filter (·.1 == kind)).getLast? with
    | none => rfl
    | some op =>
      obtain ⟨hop, hk⟩ := mem_filter.mp (mem_of_getLast? hl)
      obtain ⟨e, he, rfl⟩ := mem_map.mp hop
      have heq : e.1 = kind := by simpa using hk
      simp only [Option.map_some, Option.getD_some]
      rw [(hm e he).2, heq, hus]

lemma filter_names_eq_self (h : ∀ defn ∈ defns, defn.name ∉ names) :
    (defns.filter fun defn => !names.contains defn.name) = defns := by
  rw [filter_eq_self]
  intro defn hd
  simpa using h defn hd

lemma filter_names_eq_nil (h : ∀ defn ∈ defns, defn.name ∈ names) :
    (defns.filter fun defn => !names.contains defn.name) = [] := by
  rw [filter_eq_nil_iff]
  intro defn hd
  simpa using h defn hd

section Augmented
variable {cfg : Settings} {doc aug : Document} (hdoc : doc.IsPlain) {c1 : Catalog}
  (h1 : (ofDocument cfg doc).outcome = .ok c1)
include hdoc h1

lemma name_of_mem_progress_roots {root : OperationKind × RootType} (hr : root ∈ c1.progress.roots) :
    root.2.name = doc.rootName root.1 := by
  obtain ⟨pre, hb, _, hcom⟩ := exists_completes hr
  rw [hcom.name, hcom.kind]
  exact name_of_mem_roots hdoc.names hdoc.operations h1 hb

variable (h : c1.augment.outcome = .ok aug)
include h

lemma rootName_augment (kind : OperationKind) : aug.rootName kind = doc.rootName kind := by
  have hs := isSorted_of_ok h1
  obtain ⟨dirs, _, rfl⟩ := augment_eq hs h
  have hsc := schema_eq h1
  have hrs : ∀ root ∈ c1.progress.roots, root.2.name = rootName c1.schema root.1 := by
    intro root hr
    rw [name_of_mem_progress_roots hdoc h1 hr, Document.rootName, hsc]
  unfold Document.rootName
  rw [Parts.schemaDefs_document _ hs.others, ← hsc]
  cases hde : c1.schema with
  | none => simp [parts, hde]
  | some schema =>
    rw [hde] at hrs
    simpa [parts, hde] using rootName_completeSchema hrs kind

lemma rootNames_augment : rootNames aug = rootNames doc :=
  map_congr_left fun kind _ => rootName_augment hdoc h1 h kind

lemma nodup_rootNames_augment : (rootNames aug).Nodup := by
  rw [rootNames_augment hdoc h1 h]
  exact hdoc.operations

/-! ## The types of an augmented document -/

omit hdoc in
lemma typeDefs_eq : ∃ scalars : List TypeDef,
    (∀ defn ∈ scalars, ∃ kind ∈ kindNames, defn = scalarType kind) ∧
    aug.typeDefs = c1.types.values.map c1.settledType ++
      (keptRoots c1.progress.roots).map (fun root => root.2.build.retarget c1.settings) ++
      (keptTypes c1.types c1.generated).map (·.retarget c1.settings) ++ scalars := by
  obtain ⟨dirs, hts⟩ := typeDefs_augment (isSorted_of_ok h1) h
  refine ⟨(c1.parts dirs).scalars c1.settings, ?_, ?_⟩
  · refine forall_mem_map.mpr fun kind hk => ?_
    exact ⟨kind, mem_of_mem_filter hk, rfl⟩
  · rw [hts]
    simp [settledType, Function.comp_def]

lemma nodup_names_augment : (aug.typeDefs.map (·.name)).Nodup := by
  rw [nodup_names_iff h1 h hdoc.names hdoc.operations]
  intro root hr hgen
  have hn := (sublist_names_keptRoots h1).subset (mem_map_of_mem hr)
  have hus := startsWith_of_mem_generated (isSorted_of_ok h1) hgen
  rw [hdoc.underscore_of_root hn] at hus
  cases hus

omit h in
lemma name_not_mem_rootNames (hv : defn ∈ c1.types.values) : defn.name ∉ rootNames doc := by
  rw [ofDocument_values h1 hdoc.names, innerTypes] at hv
  simpa using (mem_filter.mp hv).2

omit h in
lemma keptType_not_mem_rootNames (hkp : defn ∈ keptTypes c1.types c1.generated) :
    defn.name ∉ rootNames doc := by
  have hs := isSorted_of_ok h1
  intro hn
  have hgen := ((mem_names_keptTypes hs).mp (mem_map_of_mem hkp)).1
  have hus := startsWith_of_mem_generated hs hgen
  rw [hdoc.underscore_of_root hn] at hus
  cases hus

lemma exists_root_or_scalar_of_name (hdef : defn ∈ aug.typeDefs) (hn : defn.name ∈ rootNames doc) :
    (∃ root ∈ keptRoots c1.progress.roots, defn = root.2.build.retarget c1.settings) ∨
      ∃ kind ∈ kindNames, defn = scalarType kind := by
  obtain ⟨scalars, hsl, hts⟩ := typeDefs_eq h1 h
  rw [hts] at hdef
  rcases mem_append.mp hdef with hm | hsc
  · rcases mem_append.mp hm with hm | hkp
    · rcases mem_append.mp hm with hv | hbu
      · obtain ⟨decl, hd, rfl⟩ := mem_map.mp hv
        rw [settledType_name] at hn
        exact absurd hn (name_not_mem_rootNames hdoc h1 hd)
      · obtain ⟨root, hr, rfl⟩ := mem_map.mp hbu
        exact .inl ⟨root, hr, rfl⟩
    · obtain ⟨generated, hgen, rfl⟩ := mem_map.mp hkp
      have hkn : generated.name ∈ rootNames doc := hn
      exact absurd hkn (keptType_not_mem_rootNames hdoc h1 hgen)
  · exact .inr (hsl defn hsc)

variable (hfr : ∀ name ∈ rootNames doc, scalarType name ∉ aug.typeDefs)
include hfr

lemma exists_keptRoot_of_name (hd : defn ∈ aug.typeDefs) (hn : defn.name ∈ rootNames doc) :
    ∃ root ∈ keptRoots c1.progress.roots, defn = root.2.build.retarget c1.settings := by
  rcases exists_root_or_scalar_of_name hdoc h1 h hd hn with hr | ⟨kind, _, rfl⟩
  · exact hr
  · exact absurd hd (hfr kind hn)

/-- An augmented document declares the operation types that were kept. -/
theorem declaredRoot?_augment {kind : OperationKind} :
    aug.declaredRoot? kind = some defn ↔ ∃ root ∈ keptRoots c1.progress.roots, root.1 = kind ∧
      defn = root.2.build.retarget c1.settings := by
  have hn {root : OperationKind × RootType} (hr : root ∈ keptRoots c1.progress.roots) :
      (root.2.build.retarget c1.settings).name = doc.rootName root.1 :=
    name_of_mem_progress_roots hdoc h1 (mem_of_mem_filter hr)
  rw [declaredRoot?_eq_some_iff (nodup_names_augment hdoc h1 h), rootName_augment hdoc h1 h]
  constructor
  · rintro ⟨hd, heq⟩
    obtain ⟨root, hr, rfl⟩ := exists_keptRoot_of_name hdoc h1 h hfr hd
      (by rw [heq]; exact mem_rootNames kind)
    exact ⟨root, hr, rootName_inj hdoc.operations ((hn hr).symm.trans heq), rfl⟩
  · rintro ⟨root, hr, rfl, rfl⟩
    exact ⟨mem_typeDefs_of_mem_keptRoots (isSorted_of_ok h1) h hr, hn hr⟩

lemma ofDocument_augment_succeeds : (ofDocument cfg aug).Succeeds := by
  have hrs := nodup_rootNames_augment hdoc h1 h
  rw [ofDocument_succeeds_iff (nodup_names_augment hdoc h1 h) hrs]
  intro kind defn hd
  obtain ⟨root, hr, _, rfl⟩ := (declaredRoot?_augment hdoc h1 h hfr).mp hd
  have hk : (root.2.build.retarget c1.settings).body.kind = root.2.definition.body.kind := by
    simp [retarget, RootType.build, withFields]
  rw [TypeBody.fields?_isSome_of_kind hk]
  exact rootsHaveFields_of_keptRoots (isSorted_of_ok h1) hr

/-- The other types of an augmented document: the settled ones, and types that stand for nothing. -/
theorem innerTypes_augment : ∃ os : List TypeDef, (∀ defn ∈ os, defn.classification = none ∧
      (Text.startsWith "_" defn.name ∨ defn.name ∈ kindNames)) ∧
    aug.innerTypes = c1.types.values.map c1.settledType ++ os ∧
    ∀ name ∈ (keptTypes c1.types c1.generated).map (·.name), name ∈ os.map (·.name) := by
  have hs := isSorted_of_ok h1
  obtain ⟨scalars, hsl, hts⟩ := typeDefs_eq h1 h
  refine ⟨(keptTypes c1.types c1.generated).map (·.retarget c1.settings) ++ scalars, ?_, ?_, ?_⟩
  · intro defn hdef
    rcases mem_append.mp hdef with hkp | hsc
    · obtain ⟨generated, hgen, rfl⟩ := mem_map.mp hkp
      refine ⟨classification_of_mem_keptTypes hs (hdoc.catalog h1).lacksRelations hgen _, .inl ?_⟩
      exact startsWith_of_mem_generated hs ((mem_names_keptTypes hs).mp (mem_map_of_mem hgen)).1
    · obtain ⟨kind, hk, rfl⟩ := hsl defn hsc
      exact ⟨rfl, .inr hk⟩
  · -- Of the four groups of types, only the operation types have the names of operation types.
    have hin : ∀ defn ∈ c1.types.values.map c1.settledType, defn.name ∉ rootNames doc := by
      intro defn hdef
      obtain ⟨decl, hd, rfl⟩ := mem_map.mp hdef
      rw [settledType_name]
      exact name_not_mem_rootNames hdoc h1 hd
    have hrs : ∀ defn ∈ (keptRoots c1.progress.roots).map
        (fun root => root.2.build.retarget c1.settings), defn.name ∈ rootNames doc := by
      intro defn hdef
      obtain ⟨root, hr, rfl⟩ := mem_map.mp hdef
      exact (sublist_names_keptRoots h1).subset (mem_map_of_mem hr)
    have hkp : ∀ defn ∈ (keptTypes c1.types c1.generated).map (·.retarget c1.settings),
        defn.name ∉ rootNames doc := by
      refine forall_mem_map.mpr fun kept hkp => ?_
      have hn : kept.name ∉ rootNames doc := keptType_not_mem_rootNames hdoc h1 hkp
      exact hn
    have hleft : ∀ defn ∈ scalars, defn.name ∉ rootNames doc := by
      intro defn hsc hn
      obtain ⟨kind, _, rfl⟩ := hsl defn hsc
      exact hfr kind hn (hts ▸ mem_append_right _ hsc)
    rw [innerTypes, rootNames_augment hdoc h1 h, hts]
    rw [filter_append, filter_append, filter_append, filter_names_eq_self hin,
      filter_names_eq_nil hrs,
      filter_names_eq_self hkp, filter_names_eq_self hleft, append_nil, append_assoc]
  · refine forall_mem_map.mpr fun kept hkp => ?_
    exact mem_map.mpr ⟨_, mem_append_left _ (mem_map_of_mem hkp), rfl⟩

/-! ## The second catalog -/

variable {c2 : Catalog} (h2 : (ofDocument cfg aug).outcome = .ok c2)
include h2

omit hdoc hfr in
lemma extensionFieldNames_second (type : Name) :
    c2.extensionFieldNames type = c1.extensionFieldNames type := by
  unfold extensionFieldNames
  rw [extensionsOf_eq h2, filter_typeExts_augment (isSorted_of_ok h1) h, flatMap_map]
  exact flatMap_congr fun extn _ => names_settledExt c1 extn

omit hfr in
lemma get?_second {name : Name} : c2.types.get? name = some defn ↔ defn ∈ aug.innerTypes ∧
    defn.name = name := by
  have hnd := nodup_names_augment hdoc h1 h
  rw [ofDocument_types h2 hnd, innerMap, get?_map_name]
  exact find?_name_eq_some_iff (hnd.sublist (filter_sublist.map _))

/-- What was generated is no node type, so the same operation types are called for. -/
lemma hasAugmentable_second (kind : OperationKind) :
    c2.hasAugmentable kind = c1.hasAugmentable kind := by
  have hp := hdoc.catalog h1
  obtain ⟨os, hos, hin, _⟩ := innerTypes_augment hdoc h1 h hfr
  have hnn : (os.any fun defn =>
      defn.isNode && !defn.isIgnored && cfg.augments kind defn.name) = false := by
    rw [any_eq_false]
    intro defn hdef
    simp [isNode, (hos defn hdef).1]
  have heq : ∀ decl ∈ c1.types.values, ((c1.settledType decl).isNode &&
      !(c1.settledType decl).isIgnored && cfg.augments kind decl.name) =
        (decl.isNode && !decl.isIgnored && cfg.augments kind decl.name) := by
    intro decl hd
    rw [settledType_isNode c1 (hp.relation decl hd)]
    cases hno : decl.isNode with
    | false => rfl
    | true => rw [settledType_isIgnored hp.lacksRelations hno]
  have hvs : c1.hasAugmentable kind = c1.types.values.any fun decl =>
      decl.isNode && !decl.isIgnored && cfg.augments kind decl.name := by
    unfold hasAugmentable
    conv_lhs => rw [(isSorted_of_ok h1).types_eq, ofDocument_settings h1, any_map]
    rfl
  rw [hvs, hasAugmentable, ofDocument_types h2 (nodup_names_augment hdoc h1 h), innerMap, hin,
    ofDocument_settings h2]
  simp only [any_map, any_append, Function.comp_def, hnn, Bool.or_false, settledType_name]
  rw [Bool.eq_iff_iff, any_eq_true, any_eq_true]
  refine exists_congr fun decl => and_congr_right fun hd => ?_
  rw [heq decl hd]

end Augmented

end Catalog

end GraphApi
