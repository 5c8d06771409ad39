import GraphApi.Proofs.Api.Pass
import GraphApi.Schema.Basic

/-!
# What a catalog holds

The definitions of a document are sorted by what they are, and the operation types are taken out of
the types. Main statements: each part of a sorted document in terms of its definitions, and what the
catalog of a document keeps to (`Catalog.isSorted_of_ok`).
-/

namespace GraphApi

open List NameMap Document Definition OperationKind

/-- Whether a definition is none of those that are sorted by name: an operation, a fragment or a
schema extension. -/
def Definition.isOther : Definition → Bool
  | .operation _ | .fragment _ | .schemaExt .. => true
  | .schema _ | .type _ | .directive _ | .typeExt _ => false

namespace Catalog

variable {doc : Document} {name : Name} {cat : Catalog} {roots : Roots} {names : List Name}
  {kind : OperationKind} {decl : Option TypeDef} {es : List (OperationKind × Name × Option TypeDef)}

def sorted (settings : Settings) (doc : Document) : Catalog :=
  doc.foldl sortIn { settings }

variable (cfg : Settings)

lemma sorted_concat (doc : Document) (defn : Definition) :
    sorted cfg (doc ++ [defn]) = (sorted cfg doc).sortIn defn := by
  simp [sorted]

@[simp] lemma sorted_settings (doc : Document) : (sorted cfg doc).settings = cfg := by
  induction doc using reverseRecOn with
  | nil => rfl
  | append_singleton doc defn ih => cases defn <;> simpa [sorted_concat, sortIn] using ih

lemma sorted_types (doc : Document) :
    (sorted cfg doc).types = ofList (doc.typeDefs.map fun defn => (defn.name, defn)) := by
  induction doc using reverseRecOn with
  | nil => rfl
  | append_singleton doc defn ih =>
    cases defn <;>
      simp [sorted_concat, sortIn, ih, typeDefs, filterMap_append, ofList_concat]

lemma sorted_types_of_nodup (h : (doc.typeDefs.map (·.name)).Nodup) :
    (sorted cfg doc).types = doc.typeDefs.map fun defn => (defn.name, defn) := by
  rw [sorted_types, ofList_eq_self]
  rwa [map_map]

lemma sorted_directives (doc : Document) : (sorted cfg doc).directives =
    ofList (doc.directiveDefs.map fun defn => (defn.name, defn)) := by
  induction doc using reverseRecOn with
  | nil => rfl
  | append_singleton doc defn ih =>
    cases defn <;>
      simp [sorted_concat, sortIn, ih, directiveDefs, filterMap_append, ofList_concat]

lemma sorted_schema (doc : Document) : (sorted cfg doc).schema = doc.schemaDefs.getLast? := by
  induction doc using reverseRecOn with
  | nil => rfl
  | append_singleton doc defn ih =>
    cases defn <;> simp [sorted_concat, sortIn, ih, schemaDefs, filterMap_append]

lemma sorted_others (doc : Document) : (sorted cfg doc).others = doc.filter isOther := by
  induction doc using reverseRecOn with
  | nil => rfl
  | append_singleton doc defn ih =>
    cases defn <;> simp [sorted_concat, sortIn, ih, filter_cons, isOther]

lemma sorted_extensionsOf (doc : Document) (type : Name) :
    (sorted cfg doc).extensionsOf type = doc.typeExts.filter (·.name == type) := by
  induction doc using reverseRecOn with
  | nil => rfl
  | append_singleton doc defn ih =>
    cases defn with
    | typeExt extn =>
      unfold extensionsOf at ih ⊢
      simp only [sorted_concat, sortIn, typeExts, get?_insert, filterMap_append,
        filter_append] at ih ⊢
      by_cases h : extn.name = type
      · subst h
        simp [ih]
      · simp [h, ih]
    | _ =>
      unfold extensionsOf at ih ⊢
      simpa [sorted_concat, sortIn, typeExts, filterMap_append] using ih

lemma perm_sorted_extensions (doc : Document) :
    Perm ((sorted cfg doc).extensions.flatMap (·.2)) doc.typeExts := by
  induction doc using reverseRecOn with
  | nil => exact .refl _
  | append_singleton doc defn ih =>
    cases defn with
    | typeExt extn =>
      rw [sorted_concat]
      simpa [sortIn, typeExts, filterMap_append] using
        (perm_insert_concat _ extn.name extn).trans (ih.append_right [extn])
    | _ => simpa [sorted_concat, sortIn, typeExts, filterMap_append] using ih

lemma name_of_mem_sorted_extensions {e : Name × List TypeExt}
    (h : e ∈ (sorted cfg doc).extensions) : ∀ extn ∈ e.2, extn.name = e.1 := by
  induction doc using reverseRecOn generalizing e with
  | nil => cases h
  | append_singleton doc defn ih =>
    rw [sorted_concat] at h
    cases defn with
    | typeExt extn =>
      rcases mem_insert h with h | rfl
      · exact ih h
      · intro other ho
        rcases mem_append.mp ho with ho | ho
        · cases hfo : (sorted cfg doc).extensions.get? extn.name with
          | none => simp [hfo] at ho
          | some earlier => exact ih (mem_of_get? hfo) other (by simpa [hfo] using ho)
        · rw [mem_singleton.mp ho]
    | _ => exact ih h

lemma nodup_sorted_extensions (doc : Document) : (sorted cfg doc).extensions.keys.Nodup := by
  induction doc using reverseRecOn with
  | nil => simp [sorted, NameMap.keys]
  | append_singleton doc defn ih =>
    rw [sorted_concat]
    cases defn with
    | typeExt extn => exact nodup_keys_insert ih _ _
    | _ => exact ih

/-! ## Operation types -/

lemma takeRoots_snd (types : NameMap TypeDef) (names : List Name) :
    (takeRoots types names).2 = types.filter fun e => !names.contains e.1 := by
  induction names generalizing types with
  | nil => simp [takeRoots]
  | cons name rest ih =>
    simp only [takeRoots, ih, erase, filter_filter]
    refine filter_congr fun e _ => ?_
    by_cases h : e.1 = name <;> simp [h]

lemma takeRoots_fst (types : NameMap TypeDef) (h : names.Nodup) :
    (takeRoots types names).1 = names.map types.get? := by
  induction names generalizing types with
  | nil => rfl
  | cons name rest ih =>
    rw [nodup_cons] at h
    simp only [takeRoots, ih _ h.2, map_cons, cons.injEq, true_and]
    refine map_congr_left fun other ho => get?_erase_of_ne types ?_
    rintro rfl
    exact h.1 ho

lemma get?_of_takeRoots {types : NameMap TypeDef} {defn : TypeDef}
    (h : (name, some defn) ∈ names.zip (takeRoots types names).1) :
    types.get? name = some defn := by
  induction names generalizing types with
  | nil => simp at h
  | cons fst rest ih =>
    simp only [takeRoots, zip_cons_cons, mem_cons, Prod.mk.injEq] at h
    rcases h with ⟨rfl, h⟩ | h
    · exact h.symm
    · have hr := ih h
      by_cases hn : name = fst
      · subst hn
        have hm := mem_erase.mp (mem_of_get? hr)
        exact absurd rfl hm.2
      · rwa [get?_erase_of_ne types hn] at hr

/-- An operation type as it is set up: the declared one, or an empty one if it is created. -/
def rootsOf (cat : Catalog) (kind : OperationKind) (name : Name) (decl : Option TypeDef) : Roots :=
  match decl with
  | some defn =>
    [(kind, { definition := defn, fields := defn.fields, generated := false,
              extensionFields := cat.extensionFieldNames name })]
  | none =>
    if cat.createsRoot kind then
      [(kind, { definition := { name, body := .object [] [] }, fields := [], generated := true,
                extensionFields := cat.extensionFieldNames name })]
    else []

lemma rootsOf_cases (cat : Catalog) (kind : OperationKind) (name : Name) (decl : Option TypeDef) :
    cat.rootsOf kind name decl = [] ∨ ∃ root, cat.rootsOf kind name decl = [(kind, root)] := by
  unfold rootsOf
  split
  · exact .inr ⟨_, rfl⟩
  · split
    · exact .inr ⟨_, rfl⟩
    · exact .inl rfl

lemma setUpRoot_eq (h : (cat.setUpRoot kind name decl).outcome = .ok roots) :
    roots = cat.rootsOf kind name decl := by
  unfold setUpRoot at h
  cases decl with
  | some defn =>
    cases hfs : defn.body.fields? with
    | none => simp [hfs] at h
    | some fields => simpa [hfs, rootsOf, TypeDef.fields, TypeBody.fields] using h.symm
  | none =>
    cases hcr : cat.createsRoot kind with
    | false => simpa [hcr, rootsOf] using h.symm
    | true => simpa [hcr, rootsOf, Run.bind_outcome] using h.symm

lemma setUpRoots_eq (h : (cat.setUpRoots es).outcome = .ok roots) :
    roots = es.flatMap fun e => cat.rootsOf e.1 e.2.1 e.2.2 := by
  induction es generalizing roots with
  | nil => simpa [setUpRoots] using h.symm
  | cons e rest ih =>
    obtain ⟨fst, h1, h⟩ := Run.bind_ok_iff.mp h
    obtain ⟨os, hos, h⟩ := Run.bind_ok_iff.mp h
    rw [flatMap_cons, ← setUpRoot_eq h1, ← ih hos]
    simpa using h.symm

lemma hasFields_of_setUpRoot (h : (cat.setUpRoot kind name decl).outcome = .ok roots) :
    ∀ root ∈ roots, root.2.definition.body.fields?.isSome := by
  intro root hr
  have heq := setUpRoot_eq h
  unfold rootsOf at heq
  unfold setUpRoot at h
  cases decl with
  | some defn =>
    rw [heq, mem_singleton] at hr
    cases hfs : defn.body.fields? with
    | none => simp [hfs] at h
    | some fields => simp [hr, hfs]
  | none =>
    dsimp only at heq
    split at heq
    · rw [heq, mem_singleton] at hr
      rw [hr]
      rfl
    · simp [heq] at hr

lemma hasFields_of_setUpRoots (h : (cat.setUpRoots es).outcome = .ok roots) :
    ∀ root ∈ roots, root.2.definition.body.fields?.isSome := by
  induction es generalizing roots with
  | nil =>
    obtain rfl : [] = roots := by simpa [setUpRoots] using h
    simp
  | cons e rest ih =>
    obtain ⟨fst, h1, h⟩ := Run.bind_ok_iff.mp h
    obtain ⟨os, hos, h⟩ := Run.bind_ok_iff.mp h
    obtain rfl : fst ++ os = roots := by simpa using h
    intro root hr
    rcases mem_append.mp hr with hr | hr
    · exact hasFields_of_setUpRoot h1 root hr
    · exact ih hos root hr

/-! ## The catalog of a document -/

def rootNames (doc : Document) : List Name :=
  all.map (rootName (schemaDefs doc).getLast?)

/-- What holds of the catalog of any document. -/
structure IsSorted (cat : Catalog) : Prop where
  nodupTypes : cat.types.keys.Nodup
  nameOfType : ∀ entry ∈ cat.types, entry.2.name = entry.1
  nodupExtensions : cat.extensions.keys.Nodup
  nameOfExtension : ∀ entry ∈ cat.extensions, ∀ extn ∈ entry.2, extn.name = entry.1
  rootsApart : ∀ entry ∈ cat.roots, entry.2.name ∉ cat.types.keys
  rootsHaveFields : ∀ entry ∈ cat.roots, entry.2.definition.body.fields?.isSome
  others : ∀ other ∈ cat.others, other.isOther

def withoutRoots (settings : Settings) (doc : Document) : Catalog :=
  { sorted settings doc with
    types := (sorted settings doc).types.filter fun entry => !(rootNames doc).contains entry.1 }

def declaredRoots (settings : Settings) (doc : Document) :
    List (OperationKind × Name × Option TypeDef) :=
  all.zip ((rootNames doc).zip (takeRoots (sorted settings doc).types (rootNames doc)).1)

/-- The catalog of a document: its definitions, sorted, and the operation types that are set up. -/
lemma ofDocument_ok_iff {cfg : Settings} : (ofDocument cfg doc).outcome = .ok cat ↔
    ∃ roots, ((withoutRoots cfg doc).setUpRoots (declaredRoots cfg doc)).outcome = .ok roots ∧
      cat = { withoutRoots cfg doc with roots } := by
  have hs : doc.foldl sortIn { settings := cfg } = sorted cfg doc := rfl
  have hns : all.map (rootName (sorted cfg doc).schema) = rootNames doc := by
    rw [rootNames, sorted_schema]
  unfold ofDocument
  simp only [hs, hns, takeRoots_snd, Run.bind_ok_iff]
  refine exists_congr fun roots => and_congr_right fun _ => ?_
  exact ⟨fun h => (Except.ok.inj h).symm, fun h => h ▸ rfl⟩

/-- The catalog has the types of the document, with the operation types apart. -/
lemma ofDocument_eq {cfg : Settings} (h : (ofDocument cfg doc).outcome = .ok cat) :
    cat = { withoutRoots cfg doc with roots := (declaredRoots cfg doc).flatMap fun e =>
        (withoutRoots cfg doc).rootsOf e.1 e.2.1 e.2.2 } := by
  obtain ⟨roots, hrs, rfl⟩ := ofDocument_ok_iff.mp h
  rw [← setUpRoots_eq hrs]

section OfDocument

variable {cfg : Settings} (hcat : (ofDocument cfg doc).outcome = .ok cat)
include hcat

lemma schema_eq : cat.schema = doc.schemaDefs.getLast? := by
  rw [ofDocument_eq hcat]
  exact sorted_schema cfg doc

lemma others_eq : cat.others = doc.filter isOther := by
  rw [ofDocument_eq hcat]
  exact sorted_others cfg doc

lemma extensionsOf_eq (type : Name) :
    cat.extensionsOf type = doc.typeExts.filter (·.name == type) := by
  rw [ofDocument_eq hcat]
  exact sorted_extensionsOf cfg doc type

lemma directives_eq : cat.directives = ofList (doc.directiveDefs.map fun defn =>
    (defn.name, defn)) := by
  rw [ofDocument_eq hcat]
  exact sorted_directives cfg doc

lemma name_of_mem_directives : ∀ e ∈ cat.directives, e.2.name = e.1 := by
  intro e he
  rw [directives_eq hcat] at he
  obtain ⟨defn, _, rfl⟩ := mem_map.mp (mem_of_mem_ofList he)
  rfl

lemma nodup_keys_directives : cat.directives.keys.Nodup := by
  rw [directives_eq hcat]
  exact nodup_keys_ofList _

end OfDocument

lemma nodup_sorted_types (doc : Document) : (sorted cfg doc).types.keys.Nodup := by
  rw [sorted_types]
  exact nodup_keys_ofList _

lemma mem_sorted_types {e : Name × TypeDef} (h : e ∈ (sorted cfg doc).types) :
    e.2.name = e.1 ∧ e.2 ∈ doc.typeDefs := by
  rw [sorted_types] at h
  obtain ⟨defn, hd, rfl⟩ := mem_map.mp (mem_of_mem_ofList h)
  exact ⟨rfl, hd⟩

lemma name_of_mem_rootsOf {e : OperationKind × Name × Option TypeDef}
    (he : e ∈ declaredRoots cfg doc) {root : OperationKind × RootType}
    (h : root ∈ cat.rootsOf e.1 e.2.1 e.2.2) : root.2.name = e.2.1 := by
  obtain ⟨kind, name, decl⟩ := e
  have hzip := (of_mem_zip he).2
  unfold rootsOf at h
  cases decl with
  | some defn =>
    rw [mem_singleton.mp h]
    exact (mem_sorted_types cfg (mem_of_get? (get?_of_takeRoots hzip))).1
  | none =>
    dsimp only at h
    split at h
    · rw [mem_singleton.mp h]
      rfl
    · simp at h

/-- The catalog of every document is sorted. -/
theorem isSorted_of_ok {cfg : Settings} (h : (ofDocument cfg doc).outcome = .ok cat) :
    cat.IsSorted := by
  obtain ⟨roots, hrs, rfl⟩ := ofDocument_ok_iff.mp h
  refine ⟨?_, ?_, nodup_sorted_extensions cfg doc, fun _ => name_of_mem_sorted_extensions cfg, ?_,
    hasFields_of_setUpRoots hrs, ?_⟩
  · exact (nodup_sorted_types cfg doc).sublist (filter_sublist.map _)
  · intro e he
    exact (mem_sorted_types cfg (mem_of_mem_filter he)).1
  · intro root hr hm
    obtain ⟨e, he, hr⟩ := mem_flatMap.mp (setUpRoots_eq hrs ▸ hr)
    rw [name_of_mem_rootsOf cfg he hr] at hm
    obtain ⟨type, ht, hn⟩ := mem_map.mp hm
    have hnot := (mem_filter.mp ht).2
    have hin : e.2.1 ∈ rootNames doc := (of_mem_zip (of_mem_zip he).2).1
    rw [hn] at hnot
    simp [hin] at hnot
  · intro other ho
    have hm : other ∈ doc.filter isOther := sorted_others cfg doc ▸ ho
    exact (mem_filter.mp hm).2

end Catalog

end GraphApi
