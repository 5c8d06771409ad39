import GraphApi.Api.Executable
import GraphApi.Proofs.Api.Covariance
import GraphApi.Proofs.Api.Idempotence
import Mathlib.Data.List.Perm.Basic

/-!
# Resolvers and definitions of an augmented schema

A field of an augmented schema takes over the resolver of the field of its name. No resolver is
lost, and the field that gets it is the declared one: `Schema.keepsResolvers_of_augment`. A schema
keeps the definitions that it is built from, and gives each of them back once, schema extensions
aside: `Schema.extract_perm_iff`.
-/

namespace GraphApi

open List Catalog Document SchemaType NameMap Text Bool

variable {defn : TypeDef} {name : Name} {schema : Schema} {names : List Name} {doc : Document}
  {extn : TypeExt} {cfg : Settings} {cat : Catalog} {document : Document}

lemma keptResolvers_eq_filter_copyResolvers {ρ : Type} (source target : Schema)
    {bound : List FieldPath}
    {resolvers : FieldPath → Option ρ} (h : ∀ path ∈ bound, (resolvers path).isSome) :
    keptResolvers source target bound = bound.filter fun path =>
      (copyResolvers source target resolvers path).isSome := by
  refine filter_congr fun path hp => ?_
  unfold copyResolvers
  split
  next hbt => rw [hbt, h path hp]
  next hnot => simpa using hnot

/-! ## Names that are declared once -/

lemma areDistinct_iff : areDistinct names ↔ names.Nodup := by
  induction names with
  | nil => simp [areDistinct]
  | cons name rest ih => simp [areDistinct, ih]

lemma Document.perm_bodies (doc : Document) : (bodies doc).Perm
    (doc.typeDefs.map (fun defn => (defn.name, defn.body)) ++ doc.typeExts.map fun extn =>
      (extn.name, extn.body)) := by
  induction doc with
  | nil => exact .refl _
  | cons defn rest ih =>
    cases defn with
    | type defn => exact ih.cons _
    | typeExt extn => exact (ih.cons _).trans perm_middle.symm
    | _ => exact ih

lemma Document.nodup_names_of_hasDistinctMembers (h : hasDistinctMembers doc)
    (hts : (doc.typeDefs.map (·.name)).Nodup) (hd : defn ∈ doc.typeDefs) :
    ((ofDefinition doc.typeExts defn).writtenFields.map (·.name)).Nodup := by
  have hm : (defn.name, defn.body) ∈ bodies doc :=
    (perm_bodies doc).mem_iff.mpr (mem_append_left _ (mem_map_of_mem hd))
  have hown := all_eq_true.mp h _ hm
  rw [and_eq_true, areDistinct_iff] at hown
  have hpr := (((perm_bodies doc).filter (·.1 == defn.name)).map (·.2)).flatMap_right
    fun body => body.fields.map (·.name)
  have hone : doc.typeDefs.filter (·.name == defn.name) = [defn] := filter_name_eq_singleton hts hd
  have hnd := hpr.nodup_iff.mp hown.1
  rw [filter_append, filter_map, filter_map] at hnd
  simp only [Function.comp_def, hone] at hnd
  simpa [writtenFields, ofDefinition, TypeDef.fields, TypeExt.fields, flatMap_map, map_flatMap,
    Function.comp_def] using hnd

lemma Document.kind_of_extendsDeclared (h : doc.extendsDeclared)
    (hts : (doc.typeDefs.map (·.name)).Nodup) (hd : defn ∈ doc.typeDefs) (hx : extn ∈ doc.typeExts)
    (hn : extn.name = defn.name) : extn.body.kind = defn.body.kind := by
  have hown := all_eq_true.mp h extn hx
  rw [hn, filter_name_eq_singleton hts hd] at hown
  simpa [eq_comm] using hown

/-! ## Types of a schema -/

lemma NameMap.mem_keys_ofList {α : Type} {es : List (Name × α)} {key : Name} :
    key ∈ (ofList es).keys ↔ key ∈ es.map (·.1) := by
  induction es using reverseRecOn with
  | nil => simp [ofList, keys]
  | append_singleton es last ih =>
    rw [ofList_concat, keys_insert, map_append, mem_append, ← ih]
    split
    next hth =>
      simp only [map_cons, map_nil, mem_singleton]
      exact ⟨.inl, fun h => h.elim id fun h => h ▸ hth⟩
    · simp

lemma mem_names_distinctFields {fields : List FieldDef} :
    name ∈ (distinctFields fields).map (·.name) ↔ name ∈ fields.map (·.name) := by
  have hks : (distinctFields fields).map (·.name) =
      (ofList ((fields.map (·.withDistinctArguments)).map fun fd => (fd.name, fd))).keys := by
    rw [distinctFields, distinctBy, values, NameMap.keys, map_map]
    refine map_congr_left fun e he => ?_
    obtain ⟨fd, -, rfl⟩ := mem_map.mp (mem_of_mem_ofList he)
    rfl
  rw [hks, mem_keys_ofList, map_map, map_map]
  rfl

lemma Builtin.startsWith_of_object (h : type? name = some defn)
    (hobj : defn.body.kind = .object) : startsWith "__" name := by
  have hall : ∀ defn ∈ types, defn.body.kind = .object → startsWith "__" defn.name := by
    decide
  have hn : defn.name = name := by simpa using find?_some h
  exact hn ▸ hall defn (mem_of_find?_eq_some h) hobj

lemma TypeBody.fields_extend_of_object {body : TypeBody} (h : body.kind = .object)
    (exts : List TypeExt) :
    (body.extend (exts.map (·.body))).fields =
      distinctFields (body.fields ++ exts.flatMap (·.fields)) := by
  cases body with
  | object interfaces fields =>
    simp only [extend, flatMap_map]
    rfl
  | _ => cases h

namespace Schema

variable {path : FieldPath}

lemma hasField_iff {schema : Schema} {exts : List TypeExt} {defn : TypeDef}
    (hbi : Builtin.type? path.type = none)
    (hg : schema.types.get? path.type = some (.ofDefinition exts defn)) :
    schema.hasField path ↔ defn.body.kind = .object ∧
      path.field ∈ (ofDefinition exts defn).writtenFields.map (·.name) := by
  have ht : schema.type? path.type = some (.ofDefinition exts defn) := by
    rw [type?, hbi, hg]
  have hk : schema.kind? path.type = some defn.body.kind := by
    rw [kind?, ht]
    exact congrArg some (TypeBody.kind_extend _ _)
  rw [hasField, hk, and_eq_true, decide_eq_true_eq, Option.some.injEq]
  refine and_congr_right fun hobj => ?_
  have hfs : schema.fieldsOf path.type = distinctFields (ofDefinition exts defn).writtenFields := by
    rw [fieldsOf, ht]
    exact TypeBody.fields_extend_of_object hobj _
  rw [hfs, ← mem_names_distinctFields, any_eq_true, mem_map]
  simp only [beq_iff_eq]

/-- The object types of a schema are declared, those by which it describes itself aside. -/
lemma exists_definition_of_hasField {doc : Document} (h : (assemble doc).hasField path)
    (hres : startsWith "__" path.type = false) :
    Builtin.type? path.type = none ∧ ∃ defn ∈ doc.typeDefs, defn.name = path.type ∧
      (assemble doc).types.get? path.type = some (.ofDefinition doc.typeExts defn) := by
  have hobj : (assemble doc).kind? path.type = some .object := by
    simp only [hasField, and_eq_true, decide_eq_true_eq] at h
    exact h.1
  obtain ⟨type, ht, hk⟩ := Option.map_eq_some_iff.mp hobj
  unfold type? at ht
  cases hbi : Builtin.type? path.type with
  | some defn =>
    rw [hbi] at ht
    rw [← Option.some.inj ht] at hk
    rw [Builtin.startsWith_of_object hbi hk] at hres
    cases hres
  | none =>
    rw [hbi] at ht
    obtain ⟨-, defn, hd, hn, rfl⟩ := declared_of_get? ht
    exact ⟨rfl, defn, hd, hn, ht⟩

/-! ## The definitions of a schema -/

lemma typeDefs_extract (schema : Schema) : typeDefs schema.extract =
    (schema.types.values.filter fun type => !startsWith "__" type.definition.name).map
      (·.definition) := by
  unfold typeDefs extract
  rw [filterMap_append, filterMap_flatMap]
  cases schema.definition <;> simp [typeDefinitions, filterMap_map, ← map_eq_flatMap]

lemma typeExts_extract (schema : Schema) : typeExts schema.extract =
    (schema.types.values.filter fun type => !startsWith "__" type.definition.name).flatMap
      (·.extensions) := by
  unfold typeExts extract
  rw [filterMap_append, filterMap_flatMap]
  cases schema.definition <;> simp [typeDefinitions, filterMap_map]

lemma nodup_names_extract (doc : Document) :
    ((typeDefs (assemble doc).extract).map (·.name)).Nodup := by
  have hks : (assemble doc).types.values.map (·.definition.name) = (assemble doc).types.keys := by
    rw [values, NameMap.keys, map_map]
    refine map_congr_left fun e he => ?_
    obtain ⟨type, -, rfl⟩ := mem_map.mp (mem_of_mem_ofList he)
    rfl
  rw [typeDefs_extract, map_map]
  refine Nodup.sublist (filter_sublist.map _) ?_
  exact hks ▸ nodup_keys_ofList _

end Schema

/-! ## Counterparts -/

lemma Catalog.mem_zip_takeRoots {types : NameMap TypeDef} (hn : name ∈ names)
    (hg : types.get? name = some defn) :
    (name, some defn) ∈ names.zip (takeRoots types names).1 := by
  induction names generalizing types with
  | nil => simp at hn
  | cons fst rest ih =>
    simp only [takeRoots, zip_cons_cons, mem_cons]
    by_cases h1 : name = fst
    · exact .inl (by rw [← h1, hg])
    · refine .inr (ih ((mem_cons.mp hn).resolve_left h1) ?_)
      rwa [get?_erase_of_ne types h1]

lemma Catalog.exists_root_of_definition (hcat : (ofDocument cfg doc).outcome = .ok cat)
    (hg : (sorted cfg doc).types.get? defn.name = some defn) (hr : defn.name ∈ rootNames doc) :
    ∃ e ∈ cat.roots, e.2.definition = defn ∧ e.2.fields = defn.fields ∧ e.2.generated = false := by
  have hall : (declaredRoots cfg doc).map (·.2) =
      (rootNames doc).zip (takeRoots (sorted cfg doc).types (rootNames doc)).1 := by
    refine map_snd_zip ?_
    simp [rootNames]
  obtain ⟨⟨kind, _⟩, he, rfl⟩ := mem_map.mp (hall ▸ mem_zip_takeRoots hr hg)
  rw [ofDocument_eq hcat]
  exact ⟨_, mem_flatMap.mpr ⟨_, he, mem_singleton.mpr rfl⟩, rfl, rfl, rfl⟩

section Counterparts

variable {cfg : Settings} {doc aug : Document} (hts : (doc.typeDefs.map (·.name)).Nodup)
  (h : (doc.augment cfg).outcome = .ok aug)
include hts h

lemma Document.exists_counterpart (hd : defn ∈ doc.typeDefs) :
    ∃ mate ∈ aug.typeDefs, mate.name = defn.name ∧
      ∃ added, KeepsBody cfg doc.innerMap defn.body mate.body added := by
  obtain ⟨cat, hcat, haug⟩ := Run.bind_ok_iff.mp h
  have hs := isSorted_of_ok hcat
  obtain rfl := ofDocument_settings hcat
  rw [← ofDocument_types hcat hts]
  by_cases hr : defn.name ∈ rootNames doc
  · have hg : (sorted cat.settings doc).types.get? defn.name = some defn := by
      rw [sorted_types_of_nodup _ hts, get?_map_name]
      exact (find?_name_eq_some_iff hts).mpr ⟨hd, rfl⟩
    obtain ⟨pre, hb, rfl, hfs, hgen⟩ := exists_root_of_definition hcat hg hr
    obtain ⟨after, ha, added, hcom⟩ := exists_completed hb
    have hkp : after ∈ keptRoots cat.progress.roots :=
      mem_filter.mpr ⟨ha, by simp [hcom.generated, hgen]⟩
    have hke := keepsRoot_build (hs.rootsHaveFields pre hb) hfs hcom.definition hcom.fields
    exact ⟨_, mem_typeDefs_of_mem_keptRoots hs haug hkp, hke.name, hke.body⟩
  · have hv : defn ∈ cat.types.values := by
      rw [ofDocument_values hcat hts]
      exact mem_filter.mpr ⟨hd, by simpa using hr⟩
    have hke := keepsType_augmentedType cat defn
    refine ⟨_, mem_typeDefs_augment hs haug hv, hke.name, ?_⟩
    exact hke.body.elim (fun hbd => ⟨_, hbd⟩) fun hbd => ⟨_, hbd⟩

lemma Document.exists_extension_counterpart (hx : extn ∈ doc.typeExts) :
    ∃ mate ∈ aug.typeExts, mate.name = extn.name ∧
      KeepsBody cfg doc.innerMap extn.body mate.body [] := by
  obtain ⟨cat, hcat, haug⟩ := Run.bind_ok_iff.mp h
  obtain rfl := ofDocument_settings hcat
  rw [← ofDocument_types hcat hts]
  have hm := (perm_extensions hcat).mem_iff.mpr hx
  have hrs : ∀ e ∈ cat.roots, e.2.name ∈ rootNames doc := fun e he =>
    (sublist_names_roots hcat).subset (mem_map_of_mem he)
  have hke := keepsExtension_augmentedExt hrs extn
  exact ⟨_, mem_typeExts_augment (isSorted_of_ok hcat) haug hm, hke.name, hke.body⟩

lemma Document.exists_member_counterpart (hns : (aug.typeDefs.map (·.name)).Nodup)
    (hex : aug.extendsDeclared) (hd : defn ∈ doc.typeDefs) {fd : FieldDef}
    (hf : fd ∈ (ofDefinition doc.typeExts defn).writtenFields) :
    ∃ mate ∈ aug.typeDefs, mate.name = defn.name ∧ mate.body.kind = defn.body.kind ∧
        ∃ kept ∈ (ofDefinition aug.typeExts mate).writtenFields,
        KeepsField cfg doc.innerMap defn.body.kind fd kept := by
  obtain ⟨mate, hcp, hn, added, hb⟩ := exists_counterpart hts h hd
  refine ⟨mate, hcp, hn, hb.kind, ?_⟩
  rcases mem_append.mp hf with hf | hf
  · obtain ⟨kept, hfs, hall⟩ := hb.fields
    obtain ⟨m, hm, hke⟩ := exists_of_forall₂ hall hf
    have hown : m ∈ mate.fields := by
      rw [TypeDef.fields, hfs]
      exact mem_append_left _ hm
    exact ⟨m, mem_append_left _ hown, hke⟩
  · obtain ⟨extn, hx, hf⟩ := mem_flatMap.mp hf
    obtain ⟨hmem, heq⟩ := mem_filter.mp hx
    obtain ⟨other, ho, hon, hob⟩ := exists_extension_counterpart hts h hmem
    have hxd : other.name = mate.name := by
      rw [hon, hn]
      exact eq_of_beq heq
    obtain ⟨kept, hfs, hall⟩ := hob.fields
    obtain ⟨m, hm, hke⟩ := exists_of_forall₂ hall hf
    have hown : m ∈ other.fields := by
      rw [TypeExt.fields, hfs]
      exact mem_append_left _ hm
    have hk := kind_of_extendsDeclared hex hns hcp ho hxd
    rw [hob.kind, hb.kind] at hk
    refine ⟨m, mem_append_right _ (mem_flatMap.mpr ⟨other, ?_, hown⟩), hk ▸ hke⟩
    exact mem_filter.mpr ⟨ho, beq_iff_eq.mpr hxd⟩

end Counterparts

/-! ## Resolvers -/

/-- Whether a type is one by which a schema describes itself. Their names are reserved. -/
def FieldPath.isIntrospective (path : FieldPath) : Bool :=
  startsWith "__" path.type

/-- A schema with the resolvers of the schema that it was made from. -/
structure KeepsResolvers (cfg : Settings) (source target : Schema) : Prop where
  /-- Whatever resolvers the fields of the one have, those of the other have the same. -/
  resolvers : ∀ {ρ : Type} (resolvers : FieldPath → Option ρ),
    (∀ path, (resolvers path).isSome → source.hasField path ∧ path.isIntrospective = false) →
      copyResolvers source target resolvers = resolvers
  /-- In particular no resolver is lost. -/
  listed : ∀ bound : List FieldPath,
    (∀ path ∈ bound, source.hasField path ∧ path.isIntrospective = false) →
    keptResolvers source target bound = bound
  /-- The one field of its name is the declared one. -/
  counterpart : ∀ path, source.hasField path → path.isIntrospective = false → ∃ before after,
    source.types.get? path.type = some before ∧ target.types.get? path.type = some after ∧
      ∃ decl ∈ before.writtenFields, decl.name = path.field ∧ ∃ kept,
        after.writtenFields.filter (·.name == path.field) = [kept] ∧
          KeepsField cfg (Document.innerMap source.extract) .object decl kept

lemma Schema.build_eq (h : build doc = .ok schema) : schema = assemble doc := by
  simp only [build, bind, Except.bind] at h
  split at h
  · cases h
  · exact (Except.ok.inj h).symm

lemma Schema.sound_of_buildSound (h : buildSound doc = .ok schema) :
    schema = assemble doc ∧ (doc.typeDefs.map (·.name)).Nodup ∧
      hasDistinctMembers doc ∧ doc.extendsDeclared ∧ doc.schemaDefs.length ≤ 1 := by
  unfold buildSound demand at h
  cases hso : doc.isSound with
  | false => simp [hso, bind, Except.bind] at h
  | true =>
    simp only [hso, if_true, bind, Except.bind] at h
    simp only [isSound, hasOneSchema, definesOnce, and_eq_true, areDistinct_iff,
      decide_eq_true_eq] at hso
    exact ⟨build_eq h, by tauto, by tauto, by tauto, by tauto⟩

lemma Schema.mem_extract (hres : startsWith "__" defn.name = false)
    (hg : (assemble doc).types.get? defn.name = some (.ofDefinition doc.typeExts defn)) :
    defn ∈ typeDefs (assemble doc).extract ∧ ∀ fd ∈ (ofDefinition doc.typeExts defn).writtenFields,
        fd ∈ (ofDefinition (typeExts (assemble doc).extract) defn).writtenFields := by
  have ht : ofDefinition doc.typeExts defn ∈
      (assemble doc).types.values.filter fun type => !startsWith "__" type.definition.name := by
    refine mem_filter.mpr ⟨mem_map_of_mem (mem_of_get? hg), ?_⟩
    rwa [not_eq_true']
  refine ⟨?_, fun fd hf => ?_⟩
  · rw [typeDefs_extract]
    exact mem_map_of_mem ht
  · rcases mem_append.mp hf with hf | hf
    · exact mem_append_left _ hf
    · obtain ⟨extn, hx, hf⟩ := mem_flatMap.mp hf
      refine mem_append_right _ (mem_flatMap.mpr ⟨extn, mem_filter.mpr ⟨?_, ?_⟩, hf⟩)
      · rw [typeExts_extract]
        exact mem_flatMap.mpr ⟨_, ht, hx⟩
      · exact (mem_filter.mp hx).2

lemma Schema.counterpart_of_augment {target : Schema}
    (h : ((assemble doc).augment cfg).outcome = .ok target) {path : FieldPath}
    (hp : (assemble doc).hasField path) (hres : path.isIntrospective = false) :
    target.hasField path ∧ ∃ pre after,
      (assemble doc).types.get? path.type = some pre ∧ target.types.get? path.type = some after ∧
        ∃ decl ∈ pre.writtenFields, decl.name = path.field ∧ ∃ kept,
          after.writtenFields.filter (·.name == path.field) = [kept] ∧
            KeepsField cfg (innerMap (assemble doc).extract) .object decl kept := by
  obtain ⟨aug, haug, hbu⟩ := Run.bind_ok_iff.mp h
  obtain ⟨rfl, hns, hms, hex, -⟩ := sound_of_buildSound hbu
  obtain ⟨hbi, defn, hdef, hn, hg⟩ := exists_definition_of_hasField hp hres
  obtain ⟨hobj, hf⟩ := (hasField_iff hbi hg).mp hp
  obtain ⟨decl, hd, hdn⟩ := mem_map.mp hf
  -- the member as it is extracted, and what has become of it
  obtain ⟨het, hwr⟩ := mem_extract (hn ▸ hres) (hn ▸ hg)
  obtain ⟨mate, hcp, hcn, hk, kept, hkp, hke⟩ :=
    exists_member_counterpart (nodup_names_extract doc) haug hns hex het (hwr decl hd)
  have ht : mate.name = path.type := hcn.trans hn
  have hta := get?_of_unique hcp (fun other ho heq => inj_on_of_nodup_map hns ho hcp heq)
    (by rw [ht, Builtin.isName, hbi]; rfl)
  have hone := filter_name_eq_singleton (nodup_names_of_hasDistinctMembers hms hns hcp) hkp
  rw [ht] at hta
  rw [hke.name, hdn] at hone
  refine ⟨(hasField_iff hbi hta).mpr ⟨hk.trans hobj, ?_⟩, _, _, hg, hta, decl, hd, hdn, kept,
    hone, hobj ▸ hke⟩
  exact mem_map.mpr ⟨kept, hkp, hke.name.trans hdn⟩

/-- An augmented schema keeps the resolvers: each goes to the counterpart of the field that had it,
and there are no others. -/
theorem Schema.keepsResolvers_of_augment {settings : Settings} {document : Document} {source target : Schema}
    (hsource : Schema.build document = .ok source) (h : (source.augment settings).outcome = .ok target) :
    KeepsResolvers settings source target := by
  obtain rfl := build_eq hsource
  have hcounterpart {path : FieldPath} (hpath : (assemble document).hasField path)
      (hreserved : path.isIntrospective = false) := counterpart_of_augment h hpath hreserved
  have hresolvers {ρ : Type} (resolvers : FieldPath → Option ρ)
      (hbound : ∀ path, (resolvers path).isSome →
      (assemble document).hasField path ∧ path.isIntrospective = false) :
      copyResolvers (assemble document) target resolvers = resolvers := by
    funext path
    unfold copyResolvers
    split
    · rfl
    · rename_i hnot
      -- a field without a counterpart has no resolver
      refine (Option.not_isSome_iff_eq_none.mp fun hsome => hnot ?_).symm
      obtain ⟨hpath, hreserved⟩ := hbound path hsome
      rw [hpath, (hcounterpart hpath hreserved).1]
      rfl
  refine ⟨hresolvers, fun bound hbound => ?_, fun path hpath hreserved =>
    (hcounterpart hpath hreserved).2⟩
  have hmarked (path : FieldPath) : (if path ∈ bound then some () else none).isSome ↔
      path ∈ bound := by
    split <;> simp [*]
  rw [keptResolvers_eq_filter_copyResolvers _ _ fun path => (hmarked path).mpr,
    hresolvers _ fun path hpath => hbound path ((hmarked path).mp hpath)]
  exact filter_eq_self.mpr fun path => (hmarked path).mpr

/-- A schema with resolvers in all places: an operation type that declares a query which would be
generated, a type that gains arguments, and extensions of both. -/
def cinemaDocument : Document :=
  [.object "Query" [.one "Film" "String"], .object "Film" [.idField],
   .extend "Film" [.many "sequels" "Film"], .extend "Query" [.one "count" "Int"]]

def cinemaSettings : Settings := { temporal := .all false, spatial := .all false }

def cinemaResolvers : List FieldPath :=
  [⟨"Query", "Film"⟩, ⟨"Query", "count"⟩, ⟨"Film", "id"⟩, ⟨"Film", "sequels"⟩]

/-- The parts of an augmented document with the generated types put in order by insertion, which can
be evaluated. -/
def Catalog.evaluatedParts (cat : Catalog) (directives : List DirectiveDef) : Parts :=
  { cat.parts directives with
    generated := (cat.generated.values.insertionSort fun first second =>
      first.name ≤ second.name).filter fun defn => !cat.types.contains defn.name }

lemma Catalog.evaluatedParts_eq (hs : cat.IsSorted) (dirs : List DirectiveDef) :
    cat.evaluatedParts dirs = cat.parts dirs := by
  have heq := sortByName_eq (nodup_names_generated hs) (perm_insertionSort _ _)
    (pairwise_insertionSort (fun fst snd : TypeDef => fst.name ≤ snd.name) _)
  unfold evaluatedParts parts keptTypes
  rw [heq]

/-- Whether the parts of an augmented document make up a schema. -/
def Catalog.makesSchema (cat : Catalog) : Bool :=
  cat.augment.outcome.isOk &&
    (directiveDefinitions cat.types cat.directives cat.settings).outcome.toOption.any
      fun directives =>
      (Schema.buildSound ((cat.evaluatedParts directives.values).document cat.settings)).isOk

lemma Schema.exists_augment_of_makesSchema
    (h : ∃ cat, (ofDocument cfg schema.extract).outcome = .ok cat ∧ cat.makesSchema) :
    ∃ target, (schema.augment cfg).outcome = .ok target := by
  obtain ⟨cat, hcat, hma⟩ := h
  obtain ⟨haug, hso⟩ := and_eq_true_iff.mp hma
  have hs := isSorted_of_ok hcat
  obtain ⟨aug, hau⟩ := Run.exists_of_isOk haug
  obtain ⟨dirs, hdr, rfl⟩ := augment_eq hs hau
  simp only [hdr, Except.toOption, Option.any_some, evaluatedParts_eq hs] at hso
  cases hbu : buildSound ((cat.parts dirs.values).document cat.settings) with
  | error cause => simp [hbu, Except.isOk, Except.toBool] at hso
  | ok target => exact ⟨target, Run.bind_ok_iff.mpr ⟨_, Run.bind_ok_iff.mpr ⟨_, hcat, hau⟩, hbu⟩⟩

/-- Resolvers of declared fields, some of them in extensions. -/
theorem cinema_keeps_resolvers : ∃ source target, Schema.build cinemaDocument = .ok source ∧
    (source.augment cinemaSettings).outcome = .ok target ∧ KeepsResolvers cinemaSettings source target ∧
      keptResolvers source target cinemaResolvers = cinemaResolvers := by
  obtain ⟨source, hsource⟩ := Run.exists_of_isOk (by decide +kernel :
    (Run.ofExcept (Schema.build cinemaDocument) : Run Notice Fault Schema).outcome.isOk)
  obtain rfl := Schema.build_eq hsource
  obtain ⟨target, htarget⟩ := Schema.exists_augment_of_makesSchema
    (Run.exists_of_any (by decide +kernel) :
    ∃ catalog, (Catalog.ofDocument cinemaSettings
      (Schema.assemble cinemaDocument).extract).outcome = .ok catalog ∧ catalog.makesSchema)
  have hkeeps := Schema.keepsResolvers_of_augment hsource htarget
  exact ⟨_, target, hsource, htarget, hkeeps, hkeeps.listed _ (by decide +kernel)⟩

/-! ## Definitions that are given back -/

lemma perm_flatMap_filter {α : Type} {key : α → Name} {names : List Name} (hns : names.Nodup)
    {items : List α}
    (h : ∀ item ∈ items, key item ∈ names) :
    (names.flatMap fun name => items.filter (key · == name)).Perm items := by
  induction names generalizing items with
  | nil =>
    rw [eq_nil_iff_forall_not_mem.mpr fun item hi => not_mem_nil (h item hi)]
    exact .refl _
  | cons name rest ih =>
    obtain ⟨hn, hr⟩ := nodup_cons.mp hns
    rw [flatMap_cons]
    refine Perm.trans (Perm.append_left _ ?_) (filter_append_perm (key · == name) items)
    -- the names that follow gather from the items that are left
    have hleft : (rest.flatMap fun other => items.filter (key · == other)) =
        rest.flatMap fun other => (items.filter fun item => !(key item == name)).filter
          (key · == other) := by
      refine flatMap_congr fun other ho => ?_
      rw [filter_filter]
      refine filter_congr fun item _ => ?_
      by_cases hk : key item = other
      · have hne : other ≠ name := fun heq => hn (heq ▸ ho)
        simp [hk, hne]
      · simp [hk]
    rw [hleft]
    refine ih hr fun item hi => ?_
    obtain ⟨hi, hk⟩ := mem_filter.mp hi
    exact (mem_cons.mp (h item hi)).resolve_left (by simpa using hk)

/-- No type is declared under a name that is built in or reserved. -/
def Document.HasFreeTypes (document : Document) : Prop :=
  ∀ defn ∈ typeDefs document, Builtin.isName defn.name = false ∧
    Text.startsWith "__" defn.name = false

lemma Schema.values_assemble (hns : (document.typeDefs.map (·.name)).Nodup)
    (hfr : document.HasFreeTypes) :
    ((assemble document).types.values.filter fun type => !startsWith "__" type.definition.name) =
      document.typeDefs.map (.ofDefinition document.typeExts) := by
  have hd : document.declaredTypes = document.typeDefs.map (.ofDefinition document.typeExts) := by
    unfold declaredTypes
    rw [filter_eq_self.mpr fun defn hdef => by simp [(hfr defn hdef).1]]
  have hvs : (assemble document).types.values = document.declaredTypes := by
    have hks : ((document.declaredTypes.map fun type => (type.definition.name, type)).map
        (·.1)).Nodup := by
      simpa [hd, Function.comp_def, ofDefinition] using hns
    simp [assemble, schemaTypes, ofList_eq_self hks, values, Function.comp_def]
  rw [hvs, hd]
  refine filter_eq_self.mpr fun type ht => ?_
  obtain ⟨defn, hdef, rfl⟩ := mem_map.mp ht
  simp [ofDefinition, (hfr defn hdef).2]

lemma Schema.perm_typeDefinitions (hns : (document.typeDefs.map (·.name)).Nodup)
    (hex : document.extendsDeclared) :
    ((document.typeDefs.map (ofDefinition document.typeExts)).flatMap typeDefinitions).Perm
        (document.typeDefs.map .type ++ document.typeExts.map .typeExt) := by
  have hxs := perm_flatMap_filter hns fun extn hx => by
    have hown := all_eq_true.mp hex extn hx
    split at hown
    next defn hl =>
      obtain ⟨hd, hn⟩ := mem_filter.mp (mem_of_getLast? hl)
      exact mem_map.mpr ⟨defn, hd, by simpa using hn⟩
    · cases hown
  rw [flatMap_map] at hxs ⊢
  have hsp := map_append_flatMap_perm document.typeDefs Definition.type
    fun defn => (document.typeExts.filter (·.name == defn.name)).map Definition.typeExt
  rw [← map_flatMap] at hsp
  exact hsp.symm.trans ((hxs.map _).append_left _)

/-- The definitions of a schema are those that it was built from, without its extensions and what is
no definition of a schema at all. So they are all of them exactly if there are no such. -/
theorem Schema.extract_perm_iff (hbuild : buildSound document = .ok schema) (hfree : document.HasFreeTypes) :
    schema.extract.Perm (document.filter fun definition => !definition.isOther) ∧
      (schema.extract.Perm document ↔ ∀ definition ∈ document, definition.isOther = false) := by
  obtain ⟨rfl, hnames, -, hextends, hone⟩ := sound_of_buildSound hbuild
  have hschemas : ((assemble document).definition.map Definition.schema).toList =
      document.schemaDefs.map .schema := by
    rcases hcase : document.schemaDefs with _ | ⟨definition, _ | ⟨second, rest⟩⟩
    · simp [assemble, hcase]
    · simp [assemble, hcase]
    · simp [hcase] at hone
  have hall : ((assemble document).extract ++ document.filter Definition.isOther).Perm
      document := by
    refine Perm.trans (Perm.append_right _ ?_) (perm_views document).symm
    rw [extract, hschemas, values_assemble hnames hfree, append_assoc _ (map Definition.type _)]
    exact perm_append_comm.append (perm_typeDefinitions hnames hextends)
  refine ⟨?_, ?_, ?_⟩
  · have hparts := perm_append_comm.trans (filter_append_perm Definition.isOther document)
    exact (perm_append_right_iff _).mp (hall.trans hparts.symm)
  · -- the definitions that are not given back are missing in number
    intro hsame definition hdefinition
    have hlength := hall.length_eq
    rw [length_append, hsame.length_eq] at hlength
    have hnone : document.filter Definition.isOther = [] := length_eq_zero_iff.mp (by omega)
    simpa using filter_eq_nil_iff.mp hnone definition hdefinition
  · intro hnone
    rwa [filter_eq_nil_iff.mpr fun definition hdefinition => by simp [hnone definition hdefinition],
      append_nil] at hall

def extendedSchema : Document :=
  [.schema { operations := [(.query, "Q")] }, .object "Q" [.one "a" "Int"],
   .object "M" [.one "b" "Int"], .schemaExt [] [(.mutation, "M")]]

/-- The extension of a schema that adds mutations is not extracted. -/
theorem extract_loses_extension : ∃ schema, Schema.buildSound extendedSchema = .ok schema ∧
    extendedSchema.HasFreeTypes ∧ schema.extract.Perm (extendedSchema.filter fun definition => !definition.isOther) ∧
      ¬ schema.extract.Perm extendedSchema := by
  obtain ⟨schema, hschema⟩ := Run.exists_of_isOk (by decide +kernel :
    (Run.ofExcept (Schema.buildSound extendedSchema) : Run Notice Fault Schema).outcome.isOk)
  have hfree : extendedSchema.HasFreeTypes := by unfold Document.HasFreeTypes; decide +kernel
  obtain ⟨hkept, hall⟩ := Schema.extract_perm_iff hschema hfree
  refine ⟨schema, hschema, hfree, hkept, fun hsame => ?_⟩
  have hother := hall.mp hsame (.schemaExt [] [(.mutation, "M")]) (by simp [extendedSchema])
  cases hother

end GraphApi
