import GraphApi.Proofs.Api.DeclarationOrder
import GraphApi.Proofs.Api.KindTypes
import GraphApi.Proofs.Api.Resumption

/-!
# Augmenting twice

Augmenting a document without relationships again changes the order of its definitions only. Its
directive definitions, taken as declared ones, are settled (`settledDirectives_again`). There is one
obstacle: if an operation is bound to the name of a temporal or spatial kind, a scalar may be
defined for it, and a scalar cannot be an operation type. Main statement: `Document.augment_again`.
-/

namespace GraphApi

open List Mark NameMap Document Bool Definition

variable {mark : Mark} {defn : DirectiveDef} {doc : Document}

/-- The directive definitions of an augmented document, before temporal and spatial types are
retargeted. -/
def settledDirectives (decl : NameMap DirectiveDef) (cfg : Settings) : List DirectiveDef :=
  Mark.all.flatMap (Mark.settled decl cfg) ++ (otherDirectives decl).values

section Directives
variable {decl : NameMap DirectiveDef} {cfg : Settings}

lemma values_directiveDefinitions {types : NameMap TypeDef} {dirs : NameMap DirectiveDef}
    (h : (directiveDefinitions types decl cfg).outcome = .ok dirs) :
    dirs.values = settledDirectives decl cfg := by
  obtain ⟨rfl, _⟩ := directiveDefinitions_ok_iff.mp h
  simp [values, settledDirectives, Function.comp_def]

variable (decl cfg) in
lemma Mark.settled_cases (mark : Mark) : (mark.settled decl cfg = [] ∧ mark.isWanted cfg = false) ∨
    ∃ defn, mark.settled decl cfg = [defn] := by
  unfold settled
  cases decl.get? mark.word with
  | some defn => exact .inr ⟨defn, rfl⟩
  | none =>
    cases mark.isWanted cfg with
    | false => exact .inl ⟨rfl, rfl⟩
    | true => exact .inr ⟨mark.definition, rfl⟩

variable (hns : ∀ entry ∈ decl, entry.2.name = entry.1)
include hns

lemma Mark.name_of_mem_settled (h : defn ∈ mark.settled decl cfg) : defn.name = mark.word := by
  unfold settled at h
  split at h
  next own hg =>
    rw [mem_singleton.mp h]
    exact hns _ (mem_of_get? hg)
  · split at h
    · rw [mem_singleton.mp h]
      rfl
    · cases h

lemma mem_settled_of_name (hmr : mark ∈ Mark.all) (h : defn ∈ settledDirectives decl cfg)
    (hn : defn.name = mark.word) : defn ∈ mark.settled decl cfg := by
  have hws : (all.map word).Nodup := by decide
  rcases mem_append.mp h with hkn | ho
  · obtain ⟨other, hm, hset⟩ := mem_flatMap.mp hkn
    have heq : other.word = mark.word := (name_of_mem_settled hns hset).symm.trans hn
    rwa [← inj_on_of_nodup_map hws hm hmr heq]
  · obtain ⟨e, he, rfl⟩ := mem_map.mp ho
    obtain ⟨he, hun⟩ := mem_filter.mp he
    rw [← hns e he, hn] at hun
    rw [contains_iff_mem.mpr (mem_map_of_mem hmr)] at hun
    cases hun

lemma find?_settledDirectives (hmr : mark ∈ Mark.all) :
    (settledDirectives decl cfg).find? (·.name == mark.word) = (mark.settled decl cfg).head? := by
  cases hfn : (settledDirectives decl cfg).find? (·.name == mark.word) with
  | some defn =>
    have hn := find?_some hfn
    have hset := mem_settled_of_name hns hmr (mem_of_find?_eq_some hfn) (eq_of_beq hn)
    rcases settled_cases decl cfg mark with ⟨hno, _⟩ | ⟨own, hown⟩
    · rw [hno] at hset
      cases hset
    · rw [hown] at hset ⊢
      rw [mem_singleton.mp hset]
      rfl
  | none =>
    rcases settled_cases decl cfg mark with ⟨hno, _⟩ | ⟨own, hown⟩
    · rw [hno]
      rfl
    · have hm : own ∈ mark.settled decl cfg := hown ▸ mem_singleton_self own
      have hn := name_of_mem_settled hns hm
      have hab := find?_eq_none.mp hfn own (mem_append_left _ (mem_flatMap.mpr ⟨mark, hmr, hm⟩))
      exact absurd (beq_iff_eq.mpr hn) hab

lemma sublist_names_settled (marks : List Mark) :
    ((marks.flatMap (settled decl cfg)).map (·.name)).Sublist (marks.map word) := by
  induction marks with
  | nil => exact .slnil
  | cons mark rest ih =>
    rw [flatMap_cons, map_append, map_cons]
    rcases settled_cases decl cfg mark with ⟨hno, _⟩ | ⟨own, hown⟩
    · rw [hno]
      exact ih.cons _
    · have hn := name_of_mem_settled hns (hown ▸ mem_singleton_self own)
      rw [hown, map_singleton, hn]
      exact ih.cons_cons _

lemma nodup_settledDirectives (hnd : decl.keys.Nodup) :
    ((settledDirectives decl cfg).map (·.name)).Nodup := by
  have hws : (all.map word).Nodup := by decide
  have hkn : ((all.flatMap (settled decl cfg)).map (·.name)).Sublist (all.map word) :=
    sublist_names_settled hns all
  have hos : (otherDirectives decl).values.map (·.name) = (otherDirectives decl).keys := by
    rw [values, NameMap.keys, map_map]
    exact map_congr_left fun e he => hns e (mem_of_mem_filter he)
  rw [settledDirectives, map_append, hos, nodup_append]
  refine ⟨hws.sublist hkn, hnd.sublist (filter_sublist.map _), ?_⟩
  rintro _ hw name ho rfl
  obtain ⟨e, he, rfl⟩ := mem_map.mp ho
  have hun := (mem_filter.mp he).2
  rw [contains_iff_mem.mpr (hkn.subset hw)] at hun
  cases hun

section Again
variable {keep : DirectiveDef → DirectiveDef} (hke : ∀ defn, (keep defn).name = defn.name)
  {again : NameMap DirectiveDef}
  (hag : again = ((settledDirectives decl cfg).map keep).map fun defn => (defn.name, defn))
include hke hag

lemma get?_again (hmr : mark ∈ Mark.all) :
    again.get? mark.word = (mark.settled decl cfg).head?.map keep := by
  rw [hag, get?_map_name, find?_map, ← find?_settledDirectives hns hmr]
  simp only [Function.comp_def, hke]

lemma Mark.settled_again (hmr : mark ∈ all) :
    mark.settled again cfg = (mark.settled decl cfg).map keep := by
  rw [settled, get?_again hns hke hag hmr]
  rcases settled_cases decl cfg mark with ⟨hno, hwa⟩ | ⟨own, hown⟩
  · simp [hno, hwa]
  · simp [hown]

lemma Mark.not_needsRoles_again (hmr : mark ∈ all) : ¬ mark.needsRoles again cfg := by
  rintro ⟨hg, hwa, _⟩
  rw [get?_again hns hke hag hmr] at hg
  rcases settled_cases decl cfg mark with ⟨_, hun⟩ | ⟨own, hown⟩
  · rw [hwa] at hun
    cases hun
  · rw [hown] at hg
    cases hg

/-- Directive definitions that are settled stay when they are taken as declared ones. -/
theorem settledDirectives_again : settledDirectives again cfg =
    (settledDirectives decl cfg).map keep := by
  have hos : (otherDirectives again).values = (otherDirectives decl).values.map keep := by
    rw [hag, otherDirectives, settledDirectives, map_append, map_append, filter_append]
    rw [filter_eq_nil_iff.mpr, filter_eq_self.mpr]
    · simp [values, Function.comp_def]
    · simp only [forall_mem_map]
      intro own hown
      obtain ⟨e, he, rfl⟩ := mem_map.mp hown
      obtain ⟨hd, ho⟩ := mem_filter.mp he
      rwa [hke, hns e hd]
    · simp only [forall_mem_map]
      intro own hown
      have hw := (sublist_names_settled hns all).subset (mem_map_of_mem hown)
      rw [hke, contains_iff_mem.mpr hw]
      decide
  rw [settledDirectives, settledDirectives, map_append, hos, map_flatMap]
  exact congrArg (· ++ _) (flatMap_congr fun mark hmr => settled_again hns hke hag hmr)

end Again

end Directives

/-! ## Documents and their parts -/

lemma Document.perm_views (doc : Document) :
    Perm doc (doc.directiveDefs.map .directive ++ doc.schemaDefs.map .schema ++
    doc.typeDefs.map .type ++ doc.typeExts.map .typeExt ++ doc.filter isOther) := by
  simp only [directiveDefs, schemaDefs, typeDefs, typeExts, append_assoc]
  induction doc with
  | nil => exact .refl _
  | cons defn rest ih =>
    refine (ih.cons defn).trans ?_
    -- The definition moves behind the groups that come before its own.
    cases defn with
    | directive defn => exact .refl _
    | schema defn => exact perm_middle.symm
    | type defn => exact perm_middle.symm.trans (perm_middle.symm.append_left _)
    | typeExt extn =>
      exact perm_middle.symm.trans ((perm_middle.symm.trans
        (perm_middle.symm.append_left _)).append_left _)
    | operation | fragment | schemaExt =>
      exact perm_middle.symm.trans ((perm_middle.symm.trans
        ((perm_middle.symm.trans (perm_middle.symm.append_left _)).append_left _)).append_left _)

lemma undeclaredScalars_of_perm {other : Document} (h : other.Perm doc) :
    undeclaredScalars other = undeclaredScalars doc := by
  have heq : Document.SameButOrder [] doc other :=
    ⟨other, h.symm, forall₂_same.mpr fun defn _ => .same defn⟩
  exact undeclaredScalars_of_sameButOrder heq

lemma Parts.document_perm {cfg : Settings} {parts : Parts}
    (hret : ∀ defn ∈ doc, defn.IsRetargeted cfg)
    (hsl : undeclaredScalars doc = []) (hdr : parts.directives = doc.directiveDefs)
    (hsh : parts.schema.toList = doc.schemaDefs)
    (hts : (parts.types ++ parts.roots ++ parts.generated).Perm doc.typeDefs)
    (hxs : parts.extensions.Perm doc.typeExts) (hos : parts.others = doc.filter isOther) :
    (parts.document cfg).Perm doc := by
  have hall : (parts.body ++ parts.tail).Perm doc := by
    refine Perm.trans ?_ (perm_views doc).symm
    have hb : parts.body = parts.directives.map .directive ++ parts.schema.toList.map .schema ++
        (parts.types ++ parts.roots ++ parts.generated).map .type := by
      cases hca : parts.schema <;> simp [body, hca]
    rw [hb, hdr, hsh, tail, hos, ← append_assoc]
    exact ((((hts.map _).append_left _).append (hxs.map _))).append_right _
  have hkp : doc.map (·.retarget cfg) = doc :=
    map_eq_self fun defn hd => retarget_of_isRetargeted (hret defn hd)
  have hba : (parts.body.map (·.retarget cfg) ++ parts.tail.map (·.retarget cfg)).Perm doc := by
    have hma := hall.map (retarget cfg)
    rwa [map_append, hkp] at hma
  -- A document that has its scalars gets no others, whatever the order.
  unfold Parts.document
  dsimp only
  rwa [undeclaredScalars_of_perm hba, hsl, map_nil, append_nil]

namespace Catalog

variable {cat : Catalog} {defn : TypeDef} {root : OperationKind × RootType} {roots : Roots}

/-! ## Declared types -/

lemma build_of_mem_rootsOf {kind : OperationKind} {name : Name}
    (hr : root ∈ cat.rootsOf kind name (some defn)) :
    root.2.build = defn ∧ root.2.generated = false := by
  rw [rootsOf, mem_singleton] at hr
  rw [hr]
  exact ⟨defn.withFields_self, rfl⟩

section Declared
variable {cfg : Settings} {doc : Document} (hts : (doc.typeDefs.map (·.name)).Nodup)
  (hrs : (rootNames doc).Nodup) {cat : Catalog} (hcat : (ofDocument cfg doc).outcome = .ok cat)
include hts hrs hcat

lemma mem_build_keptRoots_iff : defn ∈ (keptRoots cat.roots).map (·.2.build) ↔
    defn ∈ doc.typeDefs ∧ defn.name ∈ rootNames doc := by
  constructor
  · intro hbu
    obtain ⟨root, hr, rfl⟩ := mem_map.mp hbu
    obtain ⟨hr, hkp⟩ := mem_keptRoots.mp hr
    have hm := (mem_roots_iff hts hrs hcat).mp hr
    cases hd : doc.declaredRoot? root.1 with
    | none =>
      obtain ⟨_, hem, hgen⟩ := created_of_mem_rootsOf (hd ▸ hm)
      exact absurd hem (hkp hgen)
    | some defn =>
      rw [hd] at hm
      rw [(build_of_mem_rootsOf hm).1]
      obtain ⟨hdef, hn⟩ := (declaredRoot?_eq_some_iff hts).mp hd
      exact ⟨hdef, hn ▸ mem_rootNames root.1⟩
  · rintro ⟨hdef, hn⟩
    obtain ⟨kind, hk⟩ := exists_of_mem_rootNames hn
    have hd := (declaredRoot?_eq_some_iff hts).mpr ⟨hdef, hk.symm⟩
    obtain ⟨root, hm, rfl⟩ : ∃ root ∈ cat.rootsOf kind (doc.rootName kind) (doc.declaredRoot? kind),
      root.1 = kind := by
      refine exists_mem_rootsOf _ fun hno => ?_
      rw [hd] at hno
      cases hno
    have hr := (mem_roots_iff hts hrs hcat).mpr hm
    rw [hd] at hm
    obtain ⟨hbl, hdr⟩ := build_of_mem_rootsOf hm
    refine mem_map.mpr ⟨root, mem_keptRoots.mpr ⟨hr, fun hgen => ?_⟩, hbl⟩
    rw [hdr] at hgen
    cases hgen

lemma perm_typeDefs : (cat.types.values ++ (keptRoots cat.roots).map (·.2.build)).Perm
    doc.typeDefs := by
  have hs := isSorted_of_ok hcat
  have hnd : ((cat.types.values ++ (keptRoots cat.roots).map (·.2.build)).map (·.name)).Nodup := by
    rw [map_append, map_map, nodup_append]
    refine ⟨hs.nodupNames, hrs.sublist ((filter_sublist.map _).trans (sublist_names_roots hcat)),
      ?_⟩
    intro name hv root hr heq
    obtain ⟨defn, hd, rfl⟩ := mem_map.mp hv
    obtain ⟨e, he, rfl⟩ := mem_map.mp hr
    have hk := mem_keys_of_get? (get?_of_mem_values hs hd)
    rw [heq] at hk
    exact hs.rootsApart e (mem_keptRoots.mp he).1 hk
  refine (perm_ext_iff_of_nodup (.of_map _ hnd) (.of_map _ hts)).mpr fun defn => ?_
  rw [mem_append, mem_build_keptRoots_iff hts hrs hcat, ofDocument_values hcat hts,
    innerTypes, mem_filter]
  by_cases hn : defn.name ∈ rootNames doc <;> simp [hn]

end Declared

/-! ## Directives -/

lemma name_retarget_directive (cfg : Settings) (defn : DirectiveDef) :
    (defn.retarget cfg).name = defn.name := rfl

/-! ## Schema definitions -/

lemma mem_operations_completeSchema (hr : root ∈ keptRoots roots)
    (schema : SchemaDef) : root.1 ∈ (completeSchema roots schema).operations.map (·.1) := by
  unfold completeSchema
  rw [map_append, mem_append]
  by_cases hd : root.1 ∈ schema.operations.map (·.1)
  · exact .inl hd
  · refine .inr (mem_map.mpr ⟨(root.1, root.2.name),
      mem_map.mpr ⟨root, mem_filter.mpr ⟨?_, ?_⟩, rfl⟩, rfl⟩)
    · exact (mem_keptRoots.mp hr).1
    · have hem : root.2.name ∈ (keptRoots roots).map (·.2.name) := mem_map_of_mem hr
      rw [and_eq_true, not_eq_true', ← not_eq_true, contains_iff_mem, contains_iff_mem]
      exact ⟨hd, hem⟩

lemma completeSchema_eq_self {schema : SchemaDef}
    (h : ∀ root ∈ roots, root.2.name ∈ (keptRoots roots).map (·.2.name) →
      root.1 ∈ schema.operations.map (·.1)) : completeSchema roots schema = schema := by
  have hno : roots.filter (fun e => !(schema.operations.map (·.1)).contains e.1 &&
      ((keptRoots roots).map (·.2.name)).contains e.2.name) = [] := by
    rw [filter_eq_nil_iff]
    intro root hr hadd
    rw [and_eq_true, not_eq_true', ← not_eq_true, contains_iff_mem, contains_iff_mem] at hadd
    exact hadd.1 (h root hr hadd.2)
  unfold completeSchema
  dsimp only
  rw [hno, map_nil, append_nil]

lemma undeclaredScalars_augment {cfg : Settings} {doc aug : Document}
    (hcat : (ofDocument cfg doc).outcome = .ok cat) (h : cat.augment.outcome = .ok aug) :
    undeclaredScalars aug = [] := by
  rw [undeclaredScalars_eq, map_eq_nil_iff, filter_eq_nil_iff]
  intro kind hk hund
  rw [and_eq_true, not_eq_true', ← not_eq_true, contains_iff_mem, contains_iff_mem] at hund
  exact hund.2 (defined_of_kind hcat h hk hund.1).2

/-! ## The second augmentation -/

section Second
variable {cfg : Settings} {doc aug : Document} (hdoc : doc.IsPlain) {c1 : Catalog}
  (h1 : (ofDocument cfg doc).outcome = .ok c1) (h : c1.augment.outcome = .ok aug)
  (hfr : ∀ name ∈ rootNames doc, scalarType name ∉ aug.typeDefs)
  {c2 : Catalog} (h2 : (ofDocument cfg aug).outcome = .ok c2)
include hdoc h1 h hfr h2

lemma keptTypes_second : keptTypes c2.types c2.generated = [] := by
  have hfo := follows_of_augment hdoc h1 h hfr h2
  have hs := isSorted_of_ok h1
  obtain ⟨os, _, hin, hkp⟩ := innerTypes_augment hdoc h1 h hfr
  -- The names of the types that the first augmentation declares or generates are names of types.
  have hd {name : Name} (hn : name ∈ c1.types.keys) : name ∈ c2.types.keys := by
    obtain ⟨defn, hg⟩ := Option.isSome_iff_exists.mp (contains_iff.mpr hn)
    exact mem_keys_of_get? (hfo.types name defn hg)
  have hgen {name : Name} (hn : name ∈ c1.generated.keys) : name ∈ c2.types.keys := by
    by_cases hk : name ∈ c1.types.keys
    · exact hd hk
    · obtain ⟨defn, hdef, rfl⟩ := mem_map.mp (hkp name ((mem_names_keptTypes hs).mpr ⟨hn, hk⟩))
      refine mem_keys_of_get? ((get?_second hdoc h1 h h2).mpr ⟨?_, rfl⟩)
      rw [hin]
      exact mem_append_right _ hdef
  refine eq_nil_iff_forall_not_mem.mpr fun defn hdef => ?_
  obtain ⟨hv, hund⟩ := mem_keptTypes.mp hdef
  obtain ⟨e, he, rfl⟩ := mem_map.mp hv
  refine hund ?_
  rcases (mem_generated (isSorted_of_ok h2) he).2 with hreg | hst | hdi
  · obtain ⟨other, ho, hn⟩ := hfo.exists_registers hs (hdoc.catalog h1) (isSorted_of_ok h2) hreg
    rw [← hn]
    exact hgen (mem_keys_generated_of_registers hs ho)
  · rw [hfo.settings] at hst
    exact hgen (mem_keys_generated_of_stored ⟨e.2, hst, rfl⟩)
  · rw [hdi]
    rcases c1.directionsEnum_defined with hk | hk
    · exact hd hk
    · exact hgen hk

lemma schema_second : (c2.schema.map (completeSchema c2.progress.roots)).toList =
    aug.schemaDefs := by
  have hnd := nodup_names_augment hdoc h1 h
  have hrs := nodup_rootNames_augment hdoc h1 h
  have hdf : aug.schemaDefs = (c1.schema.map (completeSchema c1.progress.roots)).toList := by
    obtain ⟨dirs, _, rfl⟩ := augment_eq (isSorted_of_ok h1) h
    exact Parts.schemaDefs_document _ (isSorted_of_ok h1).others
  have hsh : c2.schema = c1.schema.map (completeSchema c1.progress.roots) := by
    rw [schema_eq h2, hdf]
    cases c1.schema <;> rfl
  rw [hdf, hsh, Option.map_map]
  refine congrArg Option.toList (Option.map_congr fun schema _ =>
    completeSchema_eq_self fun root hr hn => ?_)
  -- An operation type that is emitted was emitted before, and the schema definition has been completed with it.
  rw [progress_roots_second hdoc h1 h hfr h2] at hr hn
  obtain ⟨other, ho, heq⟩ := mem_map.mp hn
  have hon := name_of_mem_roots hnd hrs h2 (mem_keptRoots.mp ho).1
  have hk : other.1 = root.1 := by
    refine rootName_inj hrs ?_
    rw [← hon, heq, name_of_mem_roots hnd hrs h2 hr]
  have hbu := (mem_build_keptRoots_iff hnd hrs h2).mp (mem_map_of_mem ho)
  have hd := (declaredRoot?_eq_some_iff hnd).mpr ⟨hbu.1, hon⟩
  obtain ⟨after, ha, hak, _⟩ := (declaredRoot?_augment hdoc h1 h hfr).mp hd
  rw [← hk, ← hak]
  exact mem_operations_completeSchema ha schema

omit hdoc hfr in
lemma directives_second : aug.directiveDefs = (settledDirectives c1.directives c1.settings).map
    (·.retarget c1.settings) ∧
    c2.directives = ((settledDirectives c1.directives c1.settings).map (·.retarget c1.settings)).map
      fun defn => (defn.name, defn) := by
  have hdf : aug.directiveDefs = (settledDirectives c1.directives c1.settings).map
      (·.retarget c1.settings) := by
    obtain ⟨dirs, hdr, rfl⟩ := augment_eq (isSorted_of_ok h1) h
    rw [Parts.directiveDefs_document _ (isSorted_of_ok h1).others,
      ← values_directiveDefinitions hdr]
    rfl
  refine ⟨hdf, ?_⟩
  rw [directives_eq h2, hdf, ofList_eq_self]
  rw [map_map, map_map]
  exact nodup_settledDirectives (name_of_mem_directives h1) (nodup_keys_directives h1)

lemma directiveDefinitions_second {dirs : NameMap DirectiveDef}
    (hdr : (directiveDefinitions c2.types c2.directives c2.settings).outcome = .ok dirs) :
    dirs.values = aug.directiveDefs := by
  have hset : c2.settings = c1.settings := (follows_of_augment hdoc h1 h hfr h2).settings
  obtain ⟨hdf, hsd⟩ := directives_second h1 h h2
  rw [values_directiveDefinitions hdr, hset, hdf]
  exact settledDirectives_again (name_of_mem_directives h1)
    (name_retarget_directive c1.settings) hsd

lemma directiveDefinitions_second_succeeds :
    (directiveDefinitions c2.types c2.directives c2.settings).Succeeds := by
  have hset : c2.settings = c1.settings := (follows_of_augment hdoc h1 h hfr h2).settings
  refine ⟨_, directiveDefinitions_ok_iff.mpr ⟨rfl, fun mark hmr hro => ?_⟩⟩
  rw [hset] at hro
  exact absurd hro (not_needsRoles_again (name_of_mem_directives h1)
    (name_retarget_directive c1.settings) (directives_second h1 h h2).2 hmr)

lemma augment_second_succeeds : c2.augment.Succeeds := by
  have hfo := follows_of_augment hdoc h1 h hfr h2
  obtain ⟨_, hts, _⟩ := augment_succeeds_iff.mp ⟨aug, h⟩
  refine augment_succeeds_iff.mpr ⟨?_, ?_, directiveDefinitions_second_succeeds hdoc h1 h hfr h2⟩
  · intro root hr
    exact augmentRoot_second_succeeds hdoc h1 h hfr h2 hr
  · exact hfo.augmentTypes_succeed (isSorted_of_ok h1) (hdoc.catalog h1) (isSorted_of_ok h2) hts

lemma types_second : c2.types.values.map (augmentedType c2) = c2.types.values := by
  refine map_eq_self fun defn hd => ?_
  exact (follows_of_augment hdoc h1 h hfr h2).augmentedType_eq (isSorted_of_ok h1)
    (hdoc.catalog h1) (isSorted_of_ok h2) hd

lemma extensions_second : (c2.extensions.flatMap fun e => e.2.map c2.augmentedExt) =
    c2.extensions.flatMap (·.2) := by
  refine flatMap_congr fun e he => map_eq_self fun extn hx => ?_
  exact (follows_of_augment hdoc h1 h hfr h2).augmentedExt_eq (isSorted_of_ok h1)
    (hdoc.catalog h1) (isSorted_of_ok h2) (mem_flatMap.mpr ⟨e, he, hx⟩)

lemma perm_second {again : Document} (hag : c2.augment.outcome = .ok again) : again.Perm aug := by
  have hnd := nodup_names_augment hdoc h1 h
  have hrs := nodup_rootNames_augment hdoc h1 h
  have hset : c2.settings = c1.settings := (follows_of_augment hdoc h1 h hfr h2).settings
  obtain ⟨dirs, hdr, rfl⟩ := augment_eq (isSorted_of_ok h2) hag
  rw [hset]
  have hdf := directiveDefinitions_second hdoc h1 h hfr h2 hdr
  have hsh := schema_second hdoc h1 h hfr h2
  refine Parts.document_perm (isRetargeted_of_augment h1 h) (undeclaredScalars_augment h1 h)
    hdf hsh ?_ ?_ ?_
  · unfold parts
    rw [types_second hdoc h1 h hfr h2, progress_roots_second hdoc h1 h hfr h2,
      keptTypes_second hdoc h1 h hfr h2, append_nil]
    exact perm_typeDefs hnd hrs h2
  · unfold parts
    rw [extensions_second hdoc h1 h hfr h2]
    exact perm_extensions h2
  · unfold parts
    rw [others_eq h2]

end Second

/-! ## Operations bound to scalars -/

section Scalars
variable {cfg : Settings} {doc aug : Document} (hdoc : doc.IsPlain) {c1 : Catalog}
  (h1 : (ofDocument cfg doc).outcome = .ok c1) (h : c1.augment.outcome = .ok aug) {name : Name}
  (hn : name ∈ rootNames doc) (hsc : scalarType name ∈ aug.typeDefs)
include hdoc h1 h hn hsc

lemma mem_kindNames_of_scalar : name ∈ kindNames := by
  rcases exists_root_or_scalar_of_name hdoc h1 h hsc hn with ⟨root, hr, heq⟩ | ⟨kind, hk, heq⟩
  · -- an operation type has fields
    have hk : root.2.definition.body.kind = (scalarType name).body.kind := by
      rw [heq]
      simp [TypeDef.retarget, RootType.build, TypeDef.withFields]
    have hfs := rootsHaveFields_of_keptRoots (isSorted_of_ok h1) hr
    rw [TypeBody.fields?_isSome_of_kind hk] at hfs
    cases hfs
  · have hsn : name = kind := congrArg (·.name) heq
    rwa [hsn]

lemma not_succeeds_of_scalar : ¬ (ofDocument cfg aug).Succeeds := by
  have hnd := nodup_names_augment hdoc h1 h
  have hrs := nodup_rootNames_augment hdoc h1 h
  rw [ofDocument_succeeds_iff hnd hrs]
  intro hok
  rw [← rootNames_augment hdoc h1 h] at hn
  obtain ⟨kind, hk⟩ := exists_of_mem_rootNames hn
  have hd := (declaredRoot?_eq_some_iff hnd).mpr ⟨hsc, hk.symm⟩
  cases hok kind _ hd

end Scalars

end Catalog

/-- Augmenting twice adds nothing. The result of augmenting a plain document can be augmented again
if and only if no scalar for a temporal or spatial kind has been defined under the name of an
operation type. Its definitions are then the same up to their order. -/
theorem Document.augment_again {settings : Settings} {document augmented : Document} (hdocument : document.IsPlain)
    (h : (Document.augment settings document).outcome = .ok augmented) :
    ((Document.augment settings augmented).Succeeds ↔
      ∀ name ∈ Catalog.rootNames document, name ∈ kindNames → scalarType name ∉ Document.typeDefs augmented) ∧
    ∀ again, (Document.augment settings augmented).outcome = .ok again → again.Perm augmented := by
  obtain ⟨first, hfirst, h⟩ := Run.bind_ok_iff.mp h
  -- A scalar under the name of an operation type stops the second augmentation before it starts.
  have hfree (hok : (Catalog.ofDocument settings augmented).Succeeds) :
      ∀ name ∈ Catalog.rootNames document, scalarType name ∉ augmented.typeDefs :=
    fun name hname hscalar => Catalog.not_succeeds_of_scalar hdocument hfirst h hname hscalar hok
  refine ⟨⟨?_, ?_⟩, ?_⟩
  · rintro ⟨again, hagain⟩ name hname _
    obtain ⟨second, hsecond, _⟩ := Run.bind_ok_iff.mp hagain
    exact hfree ⟨second, hsecond⟩ name hname
  · intro hkinds
    have hnone : ∀ name ∈ Catalog.rootNames document, scalarType name ∉ augmented.typeDefs :=
      fun name hname hscalar =>
        hkinds name hname (Catalog.mem_kindNames_of_scalar hdocument hfirst h hname hscalar) hscalar
    obtain ⟨second, hsecond⟩ := Catalog.ofDocument_augment_succeeds hdocument hfirst h hnone
    obtain ⟨again, hagain⟩ := Catalog.augment_second_succeeds hdocument hfirst h hnone hsecond
    exact ⟨again, Run.bind_ok_iff.mpr ⟨second, hsecond, hagain⟩⟩
  · intro again hagain
    obtain ⟨second, hsecond, hagain⟩ := Run.bind_ok_iff.mp hagain
    exact Catalog.perm_second hdocument hfirst h (hfree ⟨second, hsecond⟩) hsecond hagain

/-- Lines and their stops, with temporal and spatial fields, an extension, and a query type that is
declared. -/
def timetableDocument : Document :=
  [.schema { operations := [(.query, "Timetable")] }, .object "Timetable" [.many "lines" "Line"],
   .object "Line" [{ name := "code", type := .named "ID" true }, .one "opened" "Date",
    .many "stops" "Stop"], .object "Stop" [.one "name" "String", .one "place" "Point"],
   .extend "Stop" [.many "departures" "Time" [.one "after" "Time"]]]

/-- A timetable with temporal and spatial fields, one of them in an extension. -/
theorem timetable_augment_again : timetableDocument.IsPlain ∧
    ∃ augmented again, (Document.augment {} timetableDocument).outcome = .ok augmented ∧
      (Document.augment {} augmented).outcome = .ok again ∧ again.Perm augmented := by
  have hplain : timetableDocument.IsPlain :=
    ⟨by decide +kernel, by decide +kernel, by decide +kernel, by decide +kernel, by decide +kernel⟩
  obtain ⟨augmented, h⟩ := Run.exists_of_isOk
    (by decide +kernel : (augment {} timetableDocument).outcome.isOk)
  obtain ⟨hsucceeds, hsame⟩ := Document.augment_again hplain h
  have hkinds : ∀ name ∈ Catalog.rootNames timetableDocument, name ∉ kindNames := by decide +kernel
  obtain ⟨again, hagain⟩ := hsucceeds.mpr fun name hname hkind => absurd hkind (hkinds name hname)
  exact ⟨hplain, augmented, again, h, hagain, hsame again hagain⟩

def timelessSettings : Settings := { temporal := .all false, spatial := .all false }

/-- A subscription type under the name of a temporal kind: a scalar is defined for it, and the
result cannot be augmented. -/
example :
    ∃ augmented, (augment timelessSettings
      [.schema { operations := [(.query, "Query"), (.subscription, "Time")] },
       .object "Query" [.one "now" "String"]]).outcome = .ok augmented ∧
        (augment timelessSettings augmented).outcome.isOk = false :=
  Run.exists_of_any (by decide +kernel)

end GraphApi
