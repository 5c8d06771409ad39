import GraphApi.Proofs.Api.Members
import Mathlib.Data.List.Sort
import Mathlib.Data.String.Basic

/-!
# Distinct names in an augmented document

The types of an augmented document have distinct names unless an operation type is called like a
generated type, since generated types give way to declared types only. Main statement:
`Document.namesApart_of_augment`.
-/

namespace GraphApi

open List Document Progress

lemma map_eq_of_forall₂ {α β γ : Type} {view : α → γ} {other : β → γ} {fst : List α} {snd : List β}
    (h : Forall₂ (fun item mate => other mate = view item) fst snd) :
    snd.map other = fst.map view := by
  induction h with
  | nil => rfl
  | cons hhe _ ih => rw [map_cons, map_cons, hhe, ih]

/-! ## Types by rising name -/

lemma pairwise_sortByName (types : List TypeDef) :
    (sortByName types).Pairwise fun fst snd => fst.name ≤ snd.name := by
  exact pairwise_mergeSort' _ types

lemma sortByName_eq {types sorted : List TypeDef} (hnd : (types.map (·.name)).Nodup)
    (hpr : sorted.Perm types)
    (hs : sorted.Pairwise fun fst snd => fst.name ≤ snd.name) : sortByName types = sorted := by
  refine Perm.eq_of_pairwise (fun fst snd h1 h2 hle hge => ?_) (pairwise_sortByName types) hs
    ((mergeSort_perm _ _).trans hpr.symm)
  exact inj_on_of_nodup_map hnd (mem_mergeSort.mp h1) (hpr.mem_iff.mp h2) (le_antisymm hle hge)

/-! ## Generated types -/

namespace Catalog

variable {cat : Catalog} {name : Name}

lemma nodup_keys_generated (cat : Catalog) : cat.generated.keys.Nodup := by
  rw [generated_eq_registerAll]
  exact nodup_keys_registerAll _

lemma nodup_names_generated (hs : cat.IsSorted) : (cat.generated.values.map (·.name)).Nodup := by
  have hks : cat.generated.values.map (·.name) = cat.generated.keys := by
    rw [NameMap.values, map_map]
    exact map_congr_left fun e he => (mem_generated hs he).1.symm
  rw [hks]
  exact cat.nodup_keys_generated

lemma nodup_names_keptTypes (hs : cat.IsSorted) :
    ((keptTypes cat.types cat.generated).map (·.name)).Nodup := by
  have hall : ((sortByName cat.generated.values).map (·.name)).Nodup :=
    ((mergeSort_perm _ _).map _).nodup_iff.mpr (nodup_names_generated hs)
  exact hall.sublist (filter_sublist.map _)

/-- Generated types are kept unless a declared type has their name. -/
lemma mem_names_keptTypes (hs : cat.IsSorted) :
    name ∈ (keptTypes cat.types cat.generated).map (·.name) ↔
    name ∈ cat.generated.keys ∧ name ∉ cat.types.keys := by
  constructor
  · intro h
    obtain ⟨defn, hd, rfl⟩ := mem_map.mp h
    obtain ⟨hv, hfr⟩ := mem_keptTypes.mp hd
    obtain ⟨e, he, rfl⟩ := mem_map.mp hv
    refine ⟨?_, hfr⟩
    rw [← (mem_generated hs he).1]
    exact mem_map_of_mem he
  · rintro ⟨hn, hfr⟩
    obtain ⟨e, he, rfl⟩ := mem_map.mp hn
    have hk := (mem_generated hs he).1
    exact mem_map.mpr ⟨e.2, mem_keptTypes.mpr ⟨mem_map_of_mem he, hk ▸ hfr⟩, hk.symm⟩

lemma startsWith_of_mem_generated (hs : cat.IsSorted) (h : name ∈ cat.generated.keys) :
    Text.startsWith "_" name := by
  obtain ⟨e, he, rfl⟩ := mem_map.mp h
  obtain ⟨hk, hsrc⟩ := mem_generated hs he
  rw [hk]
  exact hsrc.elim startsWith_of_registers startsWith_of_isFixed

end Catalog

lemma Parts.sublist_names_scalars (cfg : Settings) (parts : Parts) :
    Sublist ((parts.scalars cfg).map (·.name)) kindNames := by
  have hn : (fun defn : TypeDef => defn.name) ∘ scalarType = id := rfl
  unfold scalars undeclaredScalars
  rw [map_map, hn, map_id]
  exact filter_sublist

/-! ## Names of an augmented document -/

def Document.fieldNames (doc : Document) (type : Name) : List Name :=
  (((typeDefs doc).filter (·.name == type)).flatMap TypeDef.fields ++
    extensionFields doc type).map (·.name)

namespace Catalog

/-- How the names of an augmented document stand to each other. -/
structure NamesApart (cat : Catalog) (doc aug : Document) : Prop where
  /-- The declared types, the operation types, the generated types and scalars, in this order. -/
  order : ∃ scalars, Sublist scalars kindNames ∧ (typeDefs aug).map (·.name) =
    (innerTypes doc).map (·.name) ++ cat.operationTypes.map (·.2.name) ++
      (keptTypes cat.types cat.generated).map (·.name) ++ scalars
  types : ((typeDefs aug).map (·.name)).Nodup ↔
    ∀ operation ∈ cat.operationTypes, operation.2.name ∉ cat.generated.keys
  /-- An operation type that is called like a generated type was created, and the schema definition
  gave it an underscore. -/
  clashes : ∀ operation ∈ cat.operationTypes, operation.2.name ∈ cat.generated.keys →
    Text.startsWith "_" operation.2.name ∧ operation.2.name ∉ (typeDefs doc).map (·.name)
  fields : ∀ operation ∈ cat.operationTypes,
    (operation.2.fields.map (·.name) ++ (extensionFields aug operation.2.name).map (·.name)).Nodup

lemma HasMembers.perm_extensionNames {cat : Catalog} {doc aug : Document}
    {made : OperationKind → FieldDef → Prop}
    (h : cat.HasMembers doc aug (fun _ decl fd => fd.name = decl.name) made) (type : Name) :
    ((aug.extensionFields type).map (·.name)).Perm ((doc.extensionFields type).map (·.name)) := by
  obtain ⟨order, hor, hxs⟩ := h.extensions
  have hown := rel_filter (p := (·.name == type)) (q := (·.name == type)) (fun decl extn h =>
    by simp [h.1]) hxs
  have hns : (aug.extensionFields type).map (·.name) =
      ((order.filter (·.name == type)).flatMap TypeExt.fields).map (·.name) := by
    rw [extensionFields, map_flatMap, map_flatMap, flatMap, flatMap]
    exact congrArg flatten (map_eq_of_forall₂ (hown.imp fun decl extn h => map_eq_of_forall₂ h.2))
  rw [hns]
  exact ((hor.filter _).flatMap_right _).map _

section

variable {cfg : Settings} {doc aug : Document} {cat : Catalog}
  (hcat : (ofDocument cfg doc).outcome = .ok cat) (h : cat.augment.outcome = .ok aug)
include hcat h

lemma exists_names_augment : ∃ dirs, aug.typeDefs.map (·.name) =
    cat.types.keys ++ (keptRoots cat.progress.roots).map (·.2.name) ++
      (keptTypes cat.types cat.generated).map (·.name) ++
      ((cat.parts dirs).scalars cat.settings).map (·.name) ∧
      aug = (cat.parts dirs).document cat.settings := by
  have hs := isSorted_of_ok hcat
  obtain ⟨dirs, -, rfl⟩ := augment_eq hs h
  refine ⟨dirs.values, ?_, rfl⟩
  rw [Parts.typeDefs_document _ hs.others, map_append, map_map, ← names_parts hcat dirs.values]
  rfl

lemma exists_names_typeDefs (hts : (doc.typeDefs.map (·.name)).Nodup) :
    ∃ dirs, aug.typeDefs.map (·.name) =
    doc.innerTypes.map (·.name) ++ (keptRoots cat.progress.roots).map (·.2.name) ++
      (keptTypes cat.types cat.generated).map (·.name) ++
      ((cat.parts dirs).scalars cat.settings).map (·.name) := by
  obtain ⟨dirs, hns, -⟩ := exists_names_augment hcat h
  exact ⟨dirs, ofDocument_keys hcat hts ▸ hns⟩

lemma nodup_names_iff (hts : (doc.typeDefs.map (·.name)).Nodup) (hrs : (rootNames doc).Nodup) :
    (aug.typeDefs.map (·.name)).Nodup ↔ ∀ root ∈ keptRoots cat.progress.roots,
      root.2.name ∉ cat.generated.keys := by
  have hs := isSorted_of_ok hcat
  obtain ⟨dirs, hns, -⟩ := exists_names_augment hcat h
  -- operation types are taken out of the types, so only generated types can have their names
  have hfr : ∀ root ∈ keptRoots cat.progress.roots, root.2.name ∉ cat.types.keys := by
    intro root hr
    obtain ⟨pre, hb, added, hcom⟩ := exists_completes (mem_of_mem_filter hr)
    rw [hcom.name]
    exact hs.rootsApart pre hb
  rw [hns]
  constructor
  · intro hnd root hr hgen
    have hap := (nodup_append'.mp (nodup_append'.mp hnd).1).2.2
    refine hap (mem_append_right _ (mem_map_of_mem hr)) ?_
    exact (mem_names_keptTypes hs).mpr ⟨hgen, hfr root hr⟩
  · intro hap
    refine nodup_append'.mpr ⟨nodup_append'.mpr ⟨nodup_append'.mpr ⟨?_, ?_, ?_⟩, ?_, ?_⟩, ?_, ?_⟩
    · rw [ofDocument_keys hcat hts]
      exact hts.sublist (filter_sublist.map _)
    · exact (sublist_names_keptRoots hcat).nodup hrs
    · intro name hin hn
      obtain ⟨root, hr, rfl⟩ := mem_map.mp hn
      exact hfr root hr hin
    · exact nodup_names_keptTypes hs
    · intro name hn hkp
      obtain ⟨hgen, hund⟩ := (mem_names_keptTypes hs).mp hkp
      rcases mem_append.mp hn with hn | hn
      · exact hund hn
      · obtain ⟨root, hr, rfl⟩ := mem_map.mp hn
        exact hap root hr hgen
    · exact (Parts.sublist_names_scalars _ _).nodup (by decide)
    · intro name hn
      rw [← names_parts hcat dirs] at hn
      exact Parts.name_not_mem_scalars _ hn

lemma nodup_names_fields (hfs : ∀ type ∈ rootNames doc, (doc.fieldNames type).Nodup)
    {op : OperationKind × TypeDef} (hop : op ∈ cat.operationTypes) :
    (op.2.fields.map (·.name) ++ (aug.extensionFields op.2.name).map (·.name)).Nodup := by
  have hms : cat.HasMembers doc aug (fun _ decl fd => fd.name = decl.name) (fun _ _ => True) := by
    refine (hasMembers_of_augment hcat h).imp ?_ fun _ _ _ => trivial
    rintro kind decl fd ⟨gained, hbe, rfl⟩
    rw [retargetIn_name, hbe.gains.name]
  obtain ⟨decl, hd, own, added, hown, hkp, hadd, hnd⟩ := hms.operations op hop
  obtain ⟨hr, hdef⟩ := mem_of_mem_declaredRoots hd
  have hpr := hms.perm_extensionNames op.2.name
  -- what the document declares has distinct names
  have hg : (((decl.map TypeDef.fields).getD []).map (·.name) ++
      (doc.extensionFields op.2.name).map (·.name)).Nodup := by
    refine (hfs _ hr).sublist ?_
    rw [fieldNames, map_append]
    refine Sublist.append_right (Sublist.map _ ?_) _
    cases decl with
    | none => exact nil_sublist _
    | some defn =>
      obtain ⟨hn, hm⟩ := hdef defn rfl
      exact sublist_flatten_of_mem (mem_map_of_mem (mem_filter.mpr ⟨hm, by simp [hn]⟩))
  obtain ⟨hgo, hge, hga⟩ := nodup_append'.mp hg
  rw [hown, map_append, map_eq_of_forall₂ hkp]
  refine nodup_append'.mpr ⟨nodup_append'.mpr ⟨hgo, hnd, ?_⟩, hpr.nodup_iff.mpr hge, ?_⟩
  · intro name hgn hn
    obtain ⟨fd, hf, rfl⟩ := mem_map.mp hn
    exact (hadd fd hf).1 hgn
  · intro name hn hx
    rw [hpr.mem_iff] at hx
    rcases mem_append.mp hn with hn | hn
    · exact hga hn hx
    · obtain ⟨fd, hf, rfl⟩ := mem_map.mp hn
      exact (hadd fd hf).2.1 hx

end

end Catalog

/-- In an augmented document the fields of operation types have distinct names, and so have the
types unless an operation type that was created is called like a generated type. -/
theorem Document.namesApart_of_augment {settings : Settings} {document augmented : Document}
    (htypes : ((Document.typeDefs document).map (·.name)).Nodup)
    (hplain : ∀ definition ∈ Document.typeDefs document, Text.startsWith "_" definition.name = false)
    (hroots : (Catalog.rootNames document).Nodup)
    (hfields : ∀ type ∈ Catalog.rootNames document, (Document.fieldNames document type).Nodup)
    (h : (Document.augment settings document).outcome = .ok augmented) :
    ∃ catalog, (Catalog.ofDocument settings document).outcome = .ok catalog ∧ catalog.NamesApart document augmented := by
  obtain ⟨catalog, hcatalog, haugment⟩ := Run.bind_ok_iff.mp h
  have hsorted := Catalog.isSorted_of_ok hcatalog
  refine ⟨catalog, hcatalog, ?_, ?_, ?_, ?_⟩
  · obtain ⟨directives, hnames⟩ := Catalog.exists_names_typeDefs hcatalog haugment htypes
    refine ⟨_, Parts.sublist_names_scalars catalog.settings (catalog.parts directives), ?_⟩
    rw [hnames, Catalog.operationTypes, List.map_map]
    rfl
  · rw [Catalog.nodup_names_iff hcatalog haugment htypes hroots, Catalog.operationTypes, List.forall_mem_map]
    rfl
  · intro operation _ hgenerated
    have hunderscore := Catalog.startsWith_of_mem_generated hsorted hgenerated
    refine ⟨hunderscore, fun hdeclared => ?_⟩
    obtain ⟨definition, hdefinition, hname⟩ := List.mem_map.mp hdeclared
    rw [← hname, hplain definition hdefinition] at hunderscore
    cases hunderscore
  · exact fun operation hoperation => Catalog.nodup_names_fields hcatalog haugment hfields hoperation

/-- A document in which a query and a mutation that would be generated are declared, one of them by
an extension of an operation type that has no definition. -/
def libraryDocument : Document :=
  [.object "Query" [.one "count" "Int", .one "Book" "String"],
   .extend "Query" [.one "shelves" "Int"],
   .extend "Mutation" [.one "CreateAuthor" "Boolean"],
   .object "Book"
    [.idField, .one "printed" "Date",
     .many "authors" "Author" []
      [{ name := "relation",
         arguments := [("name", .text "WROTE" false), ("direction", .enum "IN")] }]],
   .object "Author" [{ name := "name", type := .named "String" true }]]

/-- A library that declares an operation called like a generated one. -/
theorem library_names_apart : ∃ augmented, (Document.augment {} libraryDocument).outcome = .ok augmented ∧
    ∃ catalog, (Catalog.ofDocument {} libraryDocument).outcome = .ok catalog ∧
      catalog.NamesApart libraryDocument augmented := by
  obtain ⟨augmented, h⟩ := Run.exists_of_isOk
    (by decide +kernel : (augment {} libraryDocument).outcome.isOk)
  exact ⟨augmented, h,
    namesApart_of_augment (by decide) (by decide) (by decide) (by decide) h⟩

/-- An operation type that is created under the name of a filter: the name is defined twice. -/
example :
    ∃ cat, (Catalog.ofDocument {} [.schema { operations := [(.query, "_AFilter")] },
      .object "A" [.idField]]).outcome = .ok cat ∧
        ∃ operation ∈ cat.operationTypes, operation.2.name ∈ cat.generated.keys :=
  Run.exists_of_any (by decide +kernel)

end GraphApi
