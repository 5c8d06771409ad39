import GraphApi.Proofs.Api.Kept

/-!
# Augmentation is conservative

Every declared definition has one counterpart in the augmented document, and the types that are no
operation types stay in order. Main statement: `Document.conserves_of_augment`.
-/

namespace GraphApi

open List NameMap Document Mark Catalog

variable {name : Name} {known : List DirectiveDef} {defn : DirectiveDef}
  {directives : NameMap DirectiveDef} {decl : TypeDef}

/-! ## What is conserved -/

/-- What a schema definition keeps: operation types are only added. -/
structure KeepsSchema (decl aug : SchemaDef) : Prop where
  description : aug.description = decl.description
  directives : aug.directives = decl.directives
  operations : ∃ added, aug.operations = decl.operations ++ added

def Document.innerTypes (doc : Document) : List TypeDef :=
  (typeDefs doc).filter fun defn => !(Catalog.rootNames doc).contains defn.name

def Document.innerMap (doc : Document) : NameMap TypeDef :=
  doc.innerTypes.map fun defn => (defn.name, defn)

def Document.rootTypes (doc : Document) : List TypeDef :=
  (Catalog.rootNames doc).filterMap fun name => (typeDefs doc).find? (·.name == name)

/-- A document in which the definitions of another one are found again. -/
structure Conserves (cfg : Settings) (doc aug : Document) : Prop where
  directives : ∀ decl ∈ directiveDefs doc,
    (directiveDefs aug).filter (·.name == decl.name) = [decl.retarget cfg]
  schema : Forall₂ KeepsSchema (schemaDefs doc) (schemaDefs aug)
  /-- The types that are no operation types come first and in order, then the operation types. -/
  types : ∃ inner roots generated, typeDefs aug = inner ++ roots ++ generated ∧
    Forall₂ (KeepsType cfg (innerMap doc)) (Document.innerTypes doc) inner ∧
    Forall₂ (KeepsRoot cfg (innerMap doc)) (rootTypes doc)
      (roots.filter fun root => ((typeDefs doc).map (·.name)).contains root.name)
  /-- A name is defined once, unless it is that of an operation type and has the form of a generated
  name. -/
  once : ∀ decl ∈ typeDefs doc,
    decl.name ∉ Catalog.rootNames doc ∨ Text.startsWith "_" decl.name = false →
      ((typeDefs aug).map (·.name)).count decl.name = 1
  /-- Extensions gather by type, in the order in which the types are first extended. -/
  extensions : ∃ order, order.Perm (typeExts doc) ∧
    Forall₂ (KeepsExtension cfg (innerMap doc) (Catalog.rootNames doc)) order
      (typeExts aug)
  others : aug.filter Definition.isOther = doc.filter Definition.isOther

/-! ## Directives -/

section
variable {α : Type} {name : α → Name} {items : List α} (hnd : (items.map name).Nodup) {item : α}
include hnd

lemma filter_name_eq_singleton (h : item ∈ items) :
    items.filter (name · == name item) = [item] := by
  induction items with
  | nil => simp at h
  | cons fst rest ih =>
    rw [map_cons, nodup_cons] at hnd
    rcases mem_cons.mp h with rfl | h
    · have hr : rest.filter (name · == name item) = [] := by
        rw [filter_eq_nil_iff]
        intro other ho heq
        exact hnd.1 (mem_map.mpr ⟨other, ho, by simpa using heq⟩)
      simp [hr]
    · have h1 : ¬ name fst = name item := fun heq => hnd.1 (heq ▸ mem_map_of_mem h)
      simp [h1, ih hnd.2 h]

lemma find?_name_eq_some_iff {key : Name} :
    items.find? (name · == key) = some item ↔ item ∈ items ∧ name item = key := by
  constructor
  · intro h
    exact ⟨mem_of_find?_eq_some h, by simpa using find?_some h⟩
  · rintro ⟨hm, rfl⟩
    rw [← head?_filter, filter_name_eq_singleton hnd hm]
    rfl

end

section Directives

variable {types : NameMap TypeDef} {decl : NameMap DirectiveDef} {cfg : Settings}

lemma markDefinition_ok (hd : ∀ e ∈ decl, e.2.name = e.1) {mark : Mark}
    (h : (markDefinition types decl cfg mark).outcome = .ok known) :
    (∀ defn ∈ known, defn.name = mark.word) ∧
      ∀ defn, decl.get? mark.word = some defn → known = [defn] := by
  unfold markDefinition at h
  cases hg : decl.get? mark.word with
  | some defn =>
    obtain rfl : [defn] = known := by simpa [hg] using h
    refine ⟨?_, by simp⟩
    simpa using hd _ (mem_of_get? hg)
  | none =>
    refine ⟨?_, by simp⟩
    simp only [hg] at h
    cases hwa : mark.isWanted cfg with
    | false =>
      obtain rfl : [] = known := by simpa [hwa] using h
      simp
    | true =>
      obtain rfl : [mark.definition] = known := by
        rw [hwa] at h
        by_cases hro : mark = .auth .hasRole
        · rw [if_neg (by simp), if_pos hro] at h
          obtain ⟨_, _, h⟩ := Run.bind_ok_iff.mp h
          obtain ⟨_, _, h⟩ := Run.bind_ok_iff.mp h
          simpa using h
        · rw [if_neg (by simp), if_neg hro] at h
          obtain ⟨_, _, h⟩ := Run.bind_ok_iff.mp h
          simpa using h
      simp [definition]

lemma filter_markDefinitions (hd : ∀ e ∈ decl, e.2.name = e.1)
    (hg : decl.get? name = some defn) {marks : List Mark} (hnd : (marks.map word).Nodup)
    (h : (markDefinitions types decl cfg marks).outcome = .ok known) :
    known.filter (·.name == name) = if name ∈ marks.map word then [defn] else [] := by
  induction marks generalizing known with
  | nil =>
    obtain rfl : [] = known := by simpa [markDefinitions] using h
    simp
  | cons mark rest ih =>
    rw [map_cons, nodup_cons] at hnd
    obtain ⟨fst, h1, h⟩ := Run.bind_ok_iff.mp h
    obtain ⟨os, hos, h⟩ := Run.bind_ok_iff.mp h
    obtain rfl : fst ++ os = known := by simpa using h
    obtain ⟨hn, hta⟩ := markDefinition_ok hd h1
    rw [filter_append, ih hnd.2 hos, map_cons]
    by_cases hmr : name = mark.word
    · subst hmr
      rw [hta defn hg, if_neg hnd.1, if_pos mem_cons_self]
      have hdef : defn.name = mark.word := hd _ (mem_of_get? hg)
      simp [hdef]
    · have hno : fst.filter (·.name == name) = [] := by
        rw [filter_eq_nil_iff]
        intro other ho heq
        exact hmr ((by simpa using heq : other.name = name).symm.trans (hn other ho))
      simp [hno, hmr]

lemma filter_directiveDefinitions (hd : ∀ e ∈ decl, e.2.name = e.1) (hnd : decl.keys.Nodup)
    (hg : decl.get? name = some defn)
    (h : (directiveDefinitions types decl cfg).outcome = .ok directives) :
    directives.values.filter (·.name == name) = [defn] := by
  obtain ⟨known, hkn, h⟩ := Run.bind_ok_iff.mp h
  have hws : (all.map word).Nodup := by decide
  have hfi := filter_markDefinitions hd hg hws hkn
  have hdef : defn.name = name := hd _ (mem_of_get? hg)
  have hvs : directives.values = known ++
      (decl.filter fun e => !(all.map word).contains e.1).map (·.2) := by
    rw [← Except.ok.inj h]
    simp [values, Function.comp_def]
  have hns : (decl.values.map (·.name)).Nodup := by
    rwa [values, map_map, map_congr_left (g := (·.1)) hd]
  have hone : decl.values.filter (·.name == name) = [defn] := by
    rw [← hdef]
    exact filter_name_eq_singleton hns (mem_map_of_mem (mem_of_get? hg))
  have hos : ((decl.filter fun e => !(all.map word).contains e.1).map (·.2)).filter
      (·.name == name) = if name ∈ all.map word then [] else [defn] := by
    rw [filter_map, filter_filter]
    split
    next hkn =>
      rw [map_eq_nil_iff, filter_eq_nil_iff]
      rintro e he hbt
      simp only [Function.comp_apply, Bool.and_eq_true, beq_iff_eq, hd e he] at hbt
      simp [hbt.1, hkn] at hbt
    next hun =>
      rw [← hone, values, filter_map]
      refine congrArg _ (filter_congr fun e he => ?_)
      by_cases heq : e.1 = name
      · simp [hd e he, heq, hun]
      · simp [hd e he, heq]
  rw [hvs, filter_append, hfi, hos]
  split <;> rfl

end Directives

/-! ## Operation types -/

namespace Catalog

variable {doc : Document} {cat : Catalog}

lemma declaredRoots_names (cfg : Settings) (doc : Document) :
    (declaredRoots cfg doc).map (·.2.1) = rootNames doc := by
  simp [declaredRoots, rootNames, OperationKind.all, takeRoots]

lemma declaredRoots_definitions (cfg : Settings) (hts : (doc.typeDefs.map (·.name)).Nodup)
    (hrs : (rootNames doc).Nodup) :
    ∀ e ∈ declaredRoots cfg doc, e.2.2 = doc.typeDefs.find? (·.name == e.2.1) := by
  intro e he
  have hzip := (of_mem_zip he).2
  rw [takeRoots_fst _ hrs, ← map_prod_left_eq_zip] at hzip
  obtain ⟨name, -, heq⟩ := mem_map.mp hzip
  rw [← heq, sorted_types_of_nodup cfg hts, get?_map_name]

lemma map_definition_rootsOf (cat : Catalog) (es : List (OperationKind × Name × Option TypeDef)) :
    ((es.flatMap fun e => cat.rootsOf e.1 e.2.1 e.2.2).filter (!·.2.generated)).map
      (·.2.definition) = es.filterMap (·.2.2) := by
  induction es with
  | nil => rfl
  | cons e rest ih =>
    obtain ⟨kind, name, decl⟩ := e
    rw [flatMap_cons, filter_append, map_append, ih, filterMap_cons]
    cases decl with
    | some defn => simp [rootsOf]
    | none =>
      unfold rootsOf
      dsimp only
      split <;> simp

lemma sublist_names_rootsOf (cfg : Settings) (doc : Document) (cat : Catalog)
    {es : List (OperationKind × Name × Option TypeDef)}
    (hes : ∀ e ∈ es, e ∈ declaredRoots cfg doc) :
    Sublist ((es.flatMap fun e => cat.rootsOf e.1 e.2.1 e.2.2).map (·.2.name))
      (es.map (·.2.1)) := by
  induction es with
  | nil => simp
  | cons e rest ih =>
    have hr := ih (forall_mem_cons.mp hes).2
    have hn : ∀ root ∈ cat.rootsOf e.1 e.2.1 e.2.2, root.2.name = e.2.1 := fun root hro =>
      name_of_mem_rootsOf cfg (hes e mem_cons_self) hro
    rw [flatMap_cons, map_append, map_cons]
    rcases cat.rootsOf_cases e.1 e.2.1 e.2.2 with hno | ⟨root, hro⟩
    · rw [hno]
      exact hr.cons _
    · rw [hro] at hn ⊢
      rw [map_singleton, hn (e.1, root) (by simp)]
      exact hr.cons_cons _

lemma mem_roots {cfg : Settings} (h : (ofDocument cfg doc).outcome = .ok cat)
    (hts : (doc.typeDefs.map (·.name)).Nodup) (hrs : (rootNames doc).Nodup)
    {root : OperationKind × RootType} (hr : root ∈ cat.roots) :
    (root.2.name ∈ doc.typeDefs.map (·.name) ↔ root.2.generated = false) ∧
      (root.2.generated = false → root.2.fields = root.2.definition.fields) := by
  rw [ofDocument_eq h] at hr
  obtain ⟨e, he, hr⟩ := mem_flatMap.mp hr
  have hd := declaredRoots_definitions cfg hts hrs e he
  have hn := name_of_mem_rootsOf cfg he hr
  obtain ⟨kind, name, decl⟩ := e
  cases decl with
  | some defn =>
    obtain rfl := mem_singleton.mp hr
    refine ⟨iff_of_true ?_ rfl, fun _ => rfl⟩
    exact mem_map_of_mem (mem_of_find?_eq_some hd.symm)
  | none =>
    have hno := find?_eq_none.mp hd.symm
    unfold rootsOf at hr
    dsimp only at hr hn hno
    split at hr
    · rw [hn, mem_singleton.mp hr]
      refine ⟨iff_of_false ?_ (by simp), by simp⟩
      intro hm
      obtain ⟨defn, hdef, heq⟩ := mem_map.mp hm
      exact hno defn hdef (by simp [heq])
    · simp at hr

lemma map_progress_roots (cat : Catalog) :
    cat.progress.roots.map (fun root => (root.2.name, root.2.generated)) =
    cat.roots.map fun root => (root.2.name, root.2.generated) := by
  have heq : Forall₂ Eq (cat.roots.map fun root => (root.2.name, root.2.generated))
      (cat.progress.roots.map fun root => (root.2.name, root.2.generated)) := by
    rw [forall₂_map_left_iff, forall₂_map_right_iff]
    refine cat.forall₂_completes.imp fun pre after h => ?_
    obtain ⟨added, hcom⟩ := h
    rw [hcom.name, hcom.generated]
  exact (forall₂_eq_eq_eq ▸ heq).symm

lemma keepsRoot_build {pre after : RootType} {added : List FieldDef}
    (hb : pre.definition.body.fields?.isSome) (hd : pre.fields = pre.definition.fields)
    (hdef : after.definition = pre.definition)
    (hfs : after.fields = pre.fields.map (rootField cat pre.name) ++ added) :
    KeepsRoot cat.settings cat.types pre.definition (after.build.retarget cat.settings) := by
  unfold RootType.build
  rw [hdef, hfs, hd]
  refine ⟨rfl, rfl, rfl, _, keepsBody_withFields cat.settings added (.inl hb) ?_⟩
  exact fun fd _ => gainsField_rootField cat pre.name fd

end Catalog

/-! ## The whole document -/

section Conservation

variable {cfg : Settings} {doc : Document} {cat : Catalog}
  (hcat : (ofDocument cfg doc).outcome = .ok cat)
include hcat

lemma Catalog.ofDocument_settings : cat.settings = cfg := by
  rw [ofDocument_eq hcat]
  exact sorted_settings cfg doc

lemma Catalog.perm_extensions : Perm (cat.extensions.flatMap (·.2)) doc.typeExts := by
  rw [ofDocument_eq hcat]
  exact perm_sorted_extensions cfg doc

lemma Catalog.sublist_names_roots : Sublist (cat.roots.map (·.2.name)) (rootNames doc) := by
  rw [ofDocument_eq hcat, ← declaredRoots_names cfg]
  exact sublist_names_rootsOf cfg doc _ fun _ h => h

lemma Catalog.sublist_names_keptRoots :
    Sublist ((keptRoots cat.progress.roots).map (·.2.name)) (rootNames doc) := by
  have hns : cat.progress.roots.map (·.2.name) = cat.roots.map (·.2.name) := by
    have h := congrArg (map Prod.fst) cat.map_progress_roots
    rwa [map_map, map_map] at h
  exact (filter_sublist.map _).trans (hns ▸ sublist_names_roots hcat)

lemma Catalog.names_parts (directives : List DirectiveDef) :
    ((cat.parts directives).types ++ (cat.parts directives).roots ++
      (cat.parts directives).generated).map (·.name) =
      cat.types.keys ++ (keptRoots cat.progress.roots).map (·.2.name) ++
        (keptTypes cat.types cat.generated).map (·.name) := by
  have hks : (cat.types.values.map (augmentedType cat)).map (·.name) = cat.types.keys := by
    rw [map_map, NameMap.keys, values, map_map]
    exact map_congr_left fun e he =>
      (augmentedType_name ..).trans ((isSorted_of_ok hcat).nameOfType e he)
  rw [← hks]
  simp [parts, Function.comp_def, RootType.build, RootType.name]

lemma Catalog.filter_directives (hdr : (doc.directiveDefs.map (·.name)).Nodup)
    (h : (directiveDefinitions cat.types cat.directives cat.settings).outcome = .ok directives)
    {decl : DirectiveDef} (hd : decl ∈ doc.directiveDefs) :
    (directives.values.map (·.retarget cat.settings)).filter (·.name == decl.name) =
      [decl.retarget cat.settings] := by
  have hmap : cat.directives = doc.directiveDefs.map fun defn => (defn.name, defn) := by
    rw [directives_eq hcat, ofList_eq_self]
    rwa [map_map]
  have hnd := nodup_keys_directives hcat
  have hg : cat.directives.get? decl.name = some decl :=
    get?_eq_some_of_mem hnd (hmap ▸ mem_map_of_mem hd)
  rw [filter_map]
  exact congrArg (map _) (filter_directiveDefinitions (name_of_mem_directives hcat) hnd hg h)

omit hcat in
lemma Document.mem_names_innerTypes (hd : decl ∈ doc.typeDefs) :
    decl.name ∈ doc.innerTypes.map (·.name) ↔ decl.name ∉ rootNames doc := by
  simp only [innerTypes, mem_map, mem_filter]
  constructor
  · rintro ⟨other, ⟨-, hnot⟩, heq⟩
    simpa [heq] using hnot
  · intro hnot
    exact ⟨decl, ⟨hd, by simpa using hnot⟩, rfl⟩

variable (hts : (doc.typeDefs.map (·.name)).Nodup)
include hts

lemma Catalog.ofDocument_types : cat.types = doc.innerMap := by
  rw [ofDocument_eq hcat]
  change (sorted cfg doc).types.filter _ = _
  rw [sorted_types_of_nodup cfg hts, filter_map]
  rfl

lemma Catalog.ofDocument_values : cat.types.values = doc.innerTypes := by
  rw [ofDocument_types hcat hts, values, innerMap, map_map]
  exact map_id _

lemma Catalog.ofDocument_keys : cat.types.keys = doc.innerTypes.map (·.name) := by
  rw [ofDocument_types hcat hts, NameMap.keys, innerMap, map_map]
  rfl

lemma Catalog.name_not_mem_keptTypes (hd : decl ∈ doc.typeDefs)
    (hn : decl.name ∉ rootNames doc ∨ Text.startsWith "_" decl.name = false) :
    decl.name ∉ (keptTypes cat.types cat.generated).map (·.name) := by
  intro hm
  obtain ⟨defn, hdef, heq⟩ := mem_map.mp hm
  obtain ⟨hv, hfr⟩ := mem_keptTypes.mp hdef
  obtain ⟨e, he, rfl⟩ := mem_map.mp hv
  rcases hn with hnot | hus
  · rw [heq, ofDocument_keys hcat hts] at hfr
    exact hfr ((mem_names_innerTypes hd).mpr hnot)
  · have hsrc := (mem_generated (isSorted_of_ok hcat) he).2
    have hfo : Text.startsWith "_" e.2.name :=
      hsrc.elim startsWith_of_registers startsWith_of_isFixed
    rw [heq, hus] at hfo
    cases hfo

variable (hrs : (rootNames doc).Nodup)
include hrs

lemma Catalog.forall₂_keepsRoot : Forall₂ (KeepsRoot cat.settings cat.types) doc.rootTypes
    (((keptRoots cat.progress.roots).map fun root =>
      root.2.build.retarget cat.settings).filter fun root =>
      (doc.typeDefs.map (·.name)).contains root.name) := by
  have hs := isSorted_of_ok hcat
  -- after all steps an operation type is still declared unless it is generated
  have hma : ∀ root ∈ cat.progress.roots, (doc.typeDefs.map (·.name)).contains root.2.name =
      !root.2.generated := by
    intro root hr
    have hm : (root.2.name, root.2.generated) ∈ cat.roots.map fun root =>
        (root.2.name, root.2.generated) :=
      cat.map_progress_roots ▸ mem_map_of_mem hr
    obtain ⟨pre, hb, heq⟩ := mem_map.mp hm
    obtain ⟨hn, hgen⟩ := Prod.mk.inj heq
    have hiff := (mem_roots hcat hts hrs hb).1
    rw [← hn, ← hgen]
    cases h : pre.2.generated <;> simp [h] at hiff ⊢ <;> simpa using hiff
  have hkp : (keptRoots cat.progress.roots).filter (fun root =>
      (doc.typeDefs.map (·.name)).contains root.2.name) =
      cat.progress.roots.filter (!·.2.generated) := by
    rw [keptRoots, filter_filter]
    refine filter_congr fun root hr => ?_
    rw [hma root hr]
    cases root.2.generated <;> simp
  have hrt : doc.rootTypes = (cat.roots.filter (!·.2.generated)).map (·.2.definition) := by
    have hcr : cat.roots = (declaredRoots cfg doc).flatMap fun e =>
        (withoutRoots cfg doc).rootsOf e.1 e.2.1 e.2.2 := by
      rw [ofDocument_eq hcat]
    rw [hcr, map_definition_rootsOf, rootTypes, ← declaredRoots_names cfg, filterMap_map]
    exact filterMap_congr fun e he =>
      (declaredRoots_definitions cfg hts hrs e he).symm
  rw [filter_map]
  change Forall₂ _ _ (((keptRoots cat.progress.roots).filter fun root =>
    (doc.typeDefs.map (·.name)).contains root.2.name).map _)
  rw [hkp, hrt, forall₂_map_left_iff, forall₂_map_right_iff]
  have hgr := (forall₂_and_left _ _).mpr ⟨fun root hr => hr, cat.forall₂_completes⟩
  have hfi := rel_filter (p := fun root => !root.2.generated) (q := fun root => !root.2.generated)
    (fun pre after ⟨_, _, hcom⟩ => by simp [hcom.generated]) hgr
  have hbt := (forall₂_and_left _ _).mpr ⟨fun root hr => (mem_filter.mp hr).2, hfi⟩
  refine hbt.imp fun pre after h => ?_
  obtain ⟨hd, hb, added, hcom⟩ := h
  have hsame := (mem_roots hcat hts hrs hb).2 (by simpa using hd)
  exact keepsRoot_build (hs.rootsHaveFields pre hb) hsame hcom.definition hcom.fields

lemma Catalog.mem_names_keptRoots (hn : name ∈ rootNames doc)
    (hd : name ∈ doc.typeDefs.map (·.name)) :
    name ∈ (keptRoots cat.progress.roots).map (·.2.name) := by
  rw [← declaredRoots_names cfg] at hn
  obtain ⟨⟨kind, name, decl⟩, he, rfl⟩ := mem_map.mp hn
  have hfo : decl = doc.typeDefs.find? (·.name == name) :=
    declaredRoots_definitions cfg hts hrs _ he
  obtain ⟨defn, hdef, hsame⟩ := mem_map.mp hd
  cases decl with
  | none => exact absurd hsame (by simpa using find?_eq_none.mp hfo.symm defn hdef)
  | some found =>
    have hfn : found.name = name := by simpa using find?_some hfo.symm
    have hm : (found.name, false) ∈ cat.roots.map fun root => (root.2.name, root.2.generated) := by
      rw [ofDocument_eq hcat]
      exact mem_map.mpr ⟨_, mem_flatMap.mpr ⟨_, he, mem_singleton.mpr rfl⟩, rfl⟩
    rw [← cat.map_progress_roots] at hm
    obtain ⟨root, hr, heq⟩ := mem_map.mp hm
    obtain ⟨hrn, hgen⟩ := Prod.mk.inj heq
    refine mem_map.mpr ⟨root, mem_filter.mpr ⟨hr, by simp [hgen]⟩, ?_⟩
    exact hrn.trans hfn

lemma Catalog.count_typeDefs (directives : List DirectiveDef) (hd : decl ∈ doc.typeDefs)
    (hn : decl.name ∉ rootNames doc ∨ Text.startsWith "_" decl.name = false) :
    ((typeDefs ((cat.parts directives).document cat.settings)).map (·.name)).count decl.name =
      1 := by
  have hs := isSorted_of_ok hcat
  have hii := mem_names_innerTypes hd
  have hri : decl.name ∈ (keptRoots cat.progress.roots).map (·.2.name) ↔
      decl.name ∈ rootNames doc :=
    ⟨fun h => (sublist_names_keptRoots hcat).subset h, fun h =>
      mem_names_keptRoots hcat hts hrs h (mem_map_of_mem hd)⟩
  have hgen := name_not_mem_keptTypes hcat hts hd hn
  have hns := names_parts hcat directives
  rw [ofDocument_keys hcat hts] at hns
  have hsc : decl.name ∉ ((cat.parts directives).scalars cat.settings).map (·.name) := by
    refine Parts.name_not_mem_scalars _ ?_
    rw [hns, mem_append, mem_append, hii, hri]
    tauto
  have hret (defns : List TypeDef) : (defns.map (·.retarget cat.settings)).map (·.name) =
      defns.map (·.name) := by
    rw [map_map]
    rfl
  rw [Parts.typeDefs_document _ hs.others, map_append, hret, hns, count_append,
    count_append, count_append, count_eq_zero_of_not_mem hgen, count_eq_zero_of_not_mem hsc]
  by_cases hr : decl.name ∈ rootNames doc
  · rw [count_eq_zero_of_not_mem (mt hii.mp (not_not.mpr hr)),
      count_eq_one_of_mem ((sublist_names_keptRoots hcat).nodup hrs) (hri.mpr hr)]
  · have hnd : (doc.innerTypes.map (·.name)).Nodup := hts.sublist (filter_sublist.map _)
    rw [count_eq_one_of_mem hnd (hii.mpr hr), count_eq_zero_of_not_mem (mt hri.mp hr)]

end Conservation

/-- An augmentation that succeeds conserves what the document declares. -/
theorem Document.conserves_of_augment {settings : Settings} {document augmented : Document}
    (htypes : ((Document.typeDefs document).map (·.name)).Nodup)
    (hdirectives : ((Document.directiveDefs document).map (·.name)).Nodup)
    (hschema : (Document.schemaDefs document).length ≤ 1) (hroots : (Catalog.rootNames document).Nodup)
    (h : (Document.augment settings document).outcome = .ok augmented) : Conserves settings document augmented := by
  obtain ⟨catalog, hcatalog, haugment⟩ := Run.bind_ok_iff.mp h
  have hsorted := isSorted_of_ok hcatalog
  obtain ⟨directives, hdefinitions, rfl⟩ := augment_eq hsorted haugment
  obtain rfl := ofDocument_settings hcatalog
  have hinner := ofDocument_types hcatalog htypes
  refine ⟨?_, ?_, ?_, fun declared =>
    count_typeDefs hcatalog htypes hroots directives.values, ?_, ?_⟩
  · intro declared hdeclared
    rw [Parts.directiveDefs_document _ hsorted.others]
    exact filter_directives hcatalog hdirectives hdefinitions hdeclared
  · have hcatalogSchema : catalog.schema = document.schemaDefs.getLast? := by
      rw [ofDocument_eq hcatalog]
      exact sorted_schema catalog.settings document
    rw [Parts.schemaDefs_document _ hsorted.others]
    change List.Forall₂ _ _ (catalog.schema.map (completeSchema catalog.progress.roots)).toList
    rw [hcatalogSchema]
    -- there is at most one schema definition
    match document.schemaDefs, hschema with
    | [], _ => exact .nil
    | [definition], _ => exact .cons ⟨rfl, rfl, _, rfl⟩ .nil
  · refine ⟨catalog.types.values.map fun definition =>
      (augmentedType catalog definition).retarget catalog.settings,
      (keptRoots catalog.progress.roots).map fun root => root.2.build.retarget catalog.settings,
      (keptTypes catalog.types catalog.generated).map (·.retarget catalog.settings) ++
        (catalog.parts directives.values).scalars catalog.settings, ?_, ?_, ?_⟩
    · rw [Parts.typeDefs_document _ hsorted.others]
      simp [parts, Function.comp_def]
    · rw [← hinner, ← ofDocument_values hcatalog htypes, forall₂_map_right_iff, forall₂_same]
      exact fun definition _ => keepsType_augmentedType catalog definition
    · rw [← hinner]
      exact forall₂_keepsRoot hcatalog htypes hroots
  · refine ⟨catalog.extensions.flatMap (·.2), perm_extensions hcatalog, ?_⟩
    rw [Parts.typeExts_document _ hsorted.others, ← hinner]
    have hmap : (catalog.parts directives.values).extensions.map (·.retarget catalog.settings) =
        (catalog.extensions.flatMap (·.2)).map fun extension =>
          (catalog.augmentedExt extension).retarget catalog.settings := by
      simp [parts, map_flatMap, Function.comp_def]
    rw [hmap, forall₂_map_right_iff, forall₂_same]
    have hnames : ∀ entry ∈ catalog.roots, entry.2.name ∈ rootNames document := fun entry hentry =>
      (sublist_names_roots hcatalog).subset (mem_map_of_mem hentry)
    exact fun extension _ => keepsExtension_augmentedExt hnames extension
  · rw [Parts.others_document _ hsorted.others]
    rw [ofDocument_eq hcatalog]
    exact sorted_others catalog.settings document

/-- A document with everything that is sorted: a directive, a schema definition, an operation type,
node types, a relationship between nodes of one type, an enum, an extension and a schema
extension. -/
def filmDocument : Document :=
  [.directive { name := "tag", arguments := [.one "on" "Date"], places := [.object] },
   .schema { operations := [(.query, "Query")] },
   .object "Query" [.many "films" "Film" [.one "year" "Int"]],
   .object "Film" [.idField, .one "released" "Date", .many "sequels" "Sequel" [.one "year" "Int"]],
   .relation "Sequel" "Film" "Film" [.one "gap" "Int"],
   .type { name := "Rating", body := .enum [{ name := "good" }, { name := "bad" }] },
   .extend "Film" [.one "rating" "Rating"], .schemaExt [] []]

/-- Films with definitions of every kind. -/
theorem films_conserved : ∃ augmented, (Document.augment {} filmDocument).outcome = .ok augmented ∧
    Conserves {} filmDocument augmented := by
  obtain ⟨augmented, h⟩ := Run.exists_of_isOk
    (by decide +kernel : (augment {} filmDocument).outcome.isOk)
  exact ⟨augmented, h, conserves_of_augment (by decide) (by decide) (by decide) (by decide) h⟩

end GraphApi
