import GraphApi.Proofs.Api.Exclusion
import GraphApi.Proofs.Api.SecondCatalog

/-!
# Operation types, taken up again

The operation types of an augmented document have all that they have gained, or are created again
without fields, so nothing that is offered to them is new. Main statements:
`Catalog.exists_resumed`, `Catalog.follows_of_augment` and `Catalog.progress_roots_second`.
-/

namespace GraphApi

open List FieldDef RootType

variable {fd : FieldDef}

lemma FieldDef.marked_of_operationDirectives {cfg : Settings} {action : String} {types : List Name}
    (hf : fd.directives = operationDirectives cfg action types) {mark : Mark}
    (hmr : AuthKind.hasScope.word ≠ mark.word) : fd.marked mark = false := by
  refine marked_eq_false fun dir hdir => ?_
  rw [hf] at hdir
  rwa [name_of_mem_operationDirectives hdir]

lemma Progress.roots_run_of_has {roots : Roots} {events : List Event}
    (h : ∀ kind fd, Event.offer kind fd ∈ events → ∀ root ∈ roots, root.1 = kind →
      root.2.has fd.name) : (run roots events).roots = roots := by
  rw [roots_run]
  refine map_eq_self fun root hr => ?_
  rw [addAll_of_has fun fd hf => h root.1 fd (Event.mem_offers.mp hf) root hr rfl]

namespace Catalog

variable {cat : Catalog} {fd : FieldDef} {pre root after : OperationKind × RootType} {owner : Name}

lemma rootField_eq_self (h : cat.takesArguments owner fd.type.base →
    nodeArguments cat (fd.describe cat.types) = fd.arguments) : rootField cat owner fd = fd := by
  unfold rootField
  dsimp only
  split
  · have har : nodeFieldArguments cat owner (fd.describe cat.types) = fd.arguments := by
      rw [nodeFieldArguments, describe_type]
      split
      next hta => exact h hta
      · rw [describe_field]
    rw [har]
  · rfl

lemma IsPlain.rootField_of_offers (hp : cat.IsPlain) (hs : cat.IsSorted) {kind : OperationKind}
    (hof : cat.Offers kind fd) (ho : cat.operationOf? owner = some kind) :
    fd.IsPlain ∧ fd.isOperation ∧ rootField cat owner fd = fd := by
  have hn {node : TypeDef} (hno : node ∈ cat.nodes) : Text.startsWith "_" node.name = false :=
    hp.names _ (NameMap.mem_keys_of_get? (get?_of_mem_nodes hs hno))
  rcases hof.shape with ⟨rfl, node, hno, _, rfl⟩ | ⟨rfl, node, hno, _, action, rfl⟩ |
    ⟨rfl, node, hno, m, hm, rel, hrel, _⟩
  · have hcm : (nodeQueryField cat node.name (cat.fieldInfos node.name)).marked .cypher = false :=
      marked_of_operationDirectives rfl (by decide)
    refine ⟨⟨marked_of_operationDirectives rfl (by decide), .inl (hn hno)⟩, rfl, rootField_eq_self fun _ => ?_⟩
    unfold nodeArguments
    rw [FieldInfo.isComputed, FieldInfo.isList, FieldInfo.wrappers, describe_field, hcm, describe_type]
    exact (hasQueryArguments_queryArguments true (cat.ordering? node.name) (some (filterName node.name)) _).queryArguments_eq
  · refine ⟨⟨marked_of_operationDirectives rfl (by decide), .inl (hn hno)⟩, rfl, rootField_eq_self fun hta => ?_⟩
    simp [takesArguments, ho] at hta
  · exact absurd hrel (hp.lacksRelations.not_relates (hp.lacksRelations.members node hno m hm))

/-- An operation type is taken up where the augmentation left it. -/
structure Resumes (first : Catalog) (before after root : OperationKind × RootType) : Prop where
  kind : root.1 = before.1
  name : root.2.name = before.2.name
  body : root.2.definition.body.kind = before.2.definition.body.kind
  grown : Progress.Grows first.effects (before.1, augmentedRoot first before.2) after
  fields : root.2.fields = after.2.fields.map
    (·.retargetIn first.settings before.2.definition.body.kind)
  extensionFields : root.2.extensionFields = after.2.extensionFields

section Second
variable {cfg : Settings} {doc aug : Document} (hdoc : doc.IsPlain) {c1 : Catalog}
  (h1 : (ofDocument cfg doc).outcome = .ok c1) (h : c1.augment.outcome = .ok aug)
  (hfr : ∀ name ∈ rootNames doc, scalarType name ∉ aug.typeDefs)
  {c2 : Catalog} (h2 : (ofDocument cfg aug).outcome = .ok c2)
include hdoc h1 h hfr h2

lemma createsRoot_second (kind : OperationKind) : c2.createsRoot kind = c1.createsRoot kind := by
  simp only [createsRoot, hasAugmentable_second hdoc h1 h hfr h2, ofDocument_settings h1,
    ofDocument_settings h2]

omit h2 in
lemma not_kept_of_undeclared (ha : after ∈ c1.progress.roots)
    (hund : aug.declaredRoot? after.1 = none) : after.2.generated ∧ after.2.fields = [] := by
  by_contra hkp
  have hm : after ∈ keptRoots c1.progress.roots := by
    refine mem_keptRoots.mpr ⟨ha, fun hgen hfs => hkp ⟨hgen, hfs⟩⟩
  have hd := (declaredRoot?_augment hdoc h1 h hfr).mpr ⟨after, hm, rfl, rfl⟩
  rw [hund] at hd
  cases hd

omit hfr in
lemma same_name_extensionFields (hb : pre ∈ c1.roots) (hr : root ∈ c2.roots)
    (hk : root.1 = pre.1) : root.2.name = pre.2.name ∧
    root.2.extensionFields = pre.2.extensionFields := by
  have hnd := nodup_names_augment hdoc h1 h
  have hrs := nodup_rootNames_augment hdoc h1 h
  have hn : root.2.name = pre.2.name := by
    rw [name_of_mem_roots hnd hrs h2 hr, rootName_augment hdoc h1 h, hk,
      name_of_mem_roots hdoc.names hdoc.operations h1 hb]
  refine ⟨hn, ?_⟩
  rw [extensionFields_of_mem_roots h2 hr, extensionFieldNames_second h1 h h2, hn,
    ← extensionFields_of_mem_roots h1 hb]

lemma exists_resumed_of_declared (hr : root ∈ c2.roots) {defn : TypeDef}
    (hd : aug.declaredRoot? root.1 = some defn) :
    ∃ pre ∈ c1.roots, ∃ after ∈ c1.progress.roots, c1.Resumes pre after root := by
  have hmem := (mem_roots_iff (nodup_names_augment hdoc h1 h)
    (nodup_rootNames_augment hdoc h1 h) h2).mp hr
  rw [hd, rootsOf, mem_singleton] at hmem
  obtain ⟨after, ha, hk, rfl⟩ := (declaredRoot?_augment hdoc h1 h hfr).mp hd
  have hm := (mem_keptRoots.mp ha).1
  obtain ⟨pre, hb, hgr⟩ := exists_source hm
  have hbk : root.1 = pre.1 := by
    rw [← hk]
    exact hgr.kind
  obtain ⟨hn, hxs⟩ := same_name_extensionFields hdoc h1 h h2 hb hr hbk
  have hdef : after.2.definition = pre.2.definition := hgr.definition
  have hfs := fields_retarget_build
    (rootsHaveFields_of_keptRoots (isSorted_of_ok h1) ha) c1.settings
  rw [hdef] at hfs
  refine ⟨pre, hb, after, hm, hbk, hn, ?_, hgr, ?_, hxs.trans hgr.extensionFields.symm⟩
  · rw [hmem]
    simp [TypeDef.retarget, build, TypeDef.withFields, hdef]
  · rwa [hmem]

lemma exists_resumed_of_created (hr : root ∈ c2.roots) (hd : aug.declaredRoot? root.1 = none) :
    ∃ pre ∈ c1.roots, ∃ after ∈ c1.progress.roots, c1.Resumes pre after root := by
  have hmem := (mem_roots_iff (nodup_names_augment hdoc h1 h)
    (nodup_rootNames_augment hdoc h1 h) h2).mp hr
  rw [hd] at hmem
  have hcr : c1.createsRoot root.1 := by
    rw [← createsRoot_second hdoc h1 h hfr h2]
    by_contra hnot
    rw [rootsOf_eq_nil_iff.mpr ⟨rfl, Bool.eq_false_iff.mpr hnot⟩] at hmem
    cases hmem
  obtain ⟨pre, hm, hk⟩ := exists_mem_rootsOf (doc.rootName root.1)
    fun (_ : doc.declaredRoot? root.1 = none) => hcr
  have hb : pre ∈ c1.roots := by
    refine (mem_roots_iff hdoc.names hdoc.operations h1).mpr ?_
    rwa [hk]
  obtain ⟨after, ha, hgr⟩ := exists_grown hb
  have hak : after.1 = root.1 := hgr.kind.trans hk
  obtain ⟨hgen, hem⟩ := not_kept_of_undeclared hdoc h1 h hfr ha (hak ▸ hd)
  have hund := declared_of_generated hm (hgr.generated.symm.trans hgen)
  have hobj := (created_of_mem_rootsOf (hund ▸ hm)).1
  obtain ⟨hro, hre, _⟩ := created_of_mem_rootsOf hmem
  obtain ⟨hn, hxs⟩ := same_name_extensionFields hdoc h1 h h2 hb hr hk.symm
  refine ⟨pre, hb, after, ha, hk.symm, hn, hro.trans hobj.symm, hgr, ?_,
    hxs.trans hgr.extensionFields.symm⟩
  rw [hre, hem, map_nil]

/-- Every operation type of the second catalog takes up one that the first has completed. -/
theorem exists_resumed (hr : root ∈ c2.roots) :
    ∃ pre ∈ c1.roots, ∃ after ∈ c1.progress.roots, c1.Resumes pre after root := by
  cases hd : aug.declaredRoot? root.1 with
  | some defn => exact exists_resumed_of_declared hdoc h1 h hfr h2 hr hd
  | none => exact exists_resumed_of_created hdoc h1 h hfr h2 hr hd

lemma exists_root_second (hb : pre ∈ c1.roots) : ∃ root ∈ c2.roots, root.1 = pre.1 := by
  have hnd := nodup_names_augment hdoc h1 h
  have hrs := nodup_rootNames_augment hdoc h1 h
  have hm := (mem_roots_iff hdoc.names hdoc.operations h1).mp hb
  have hcr : aug.declaredRoot? pre.1 = none → c2.createsRoot pre.1 := by
    intro hd
    rw [createsRoot_second hdoc h1 h hfr h2]
    obtain ⟨after, ha, hgr⟩ := exists_grown hb
    have hgen := (not_kept_of_undeclared hdoc h1 h hfr ha (hgr.kind ▸ hd)).1
    have hno := declared_of_generated hm (hgr.generated.symm.trans hgen)
    by_contra hnot
    rw [hno, rootsOf_eq_nil_iff.mpr ⟨rfl, Bool.eq_false_iff.mpr hnot⟩] at hm
    cases hm
  obtain ⟨root, hr, hk⟩ := exists_mem_rootsOf (aug.rootName pre.1) hcr
  exact ⟨root, (mem_roots_iff hnd hrs h2).mpr (hk ▸ hr), hk⟩

/-- The catalog of an augmented document follows that of the document. -/
theorem follows_of_augment : c1.Follows c2 where
  settings := by rw [ofDocument_settings h1, ofDocument_settings h2]
  roots kind := by
    rw [Bool.eq_iff_iff, isSome_root?_iff, isSome_root?_iff]
    constructor
    · rintro ⟨root, hr, rfl⟩
      obtain ⟨pre, hb, _, _, hre⟩ := exists_resumed hdoc h1 h hfr h2 hr
      exact ⟨pre, hb, hre.kind.symm⟩
    · rintro ⟨pre, hb, rfl⟩
      exact exists_root_second hdoc h1 h hfr h2 hb
  operations name := by
    have hrs := nodup_rootNames_augment hdoc h1 h
    refine Option.ext fun kind => ?_
    rw [operationOf?_eq_some_iff hrs h2, operationOf?_eq_some_iff hdoc.operations h1]
    constructor
    · rintro ⟨root, hr, rfl, rfl⟩
      obtain ⟨pre, hb, _, _, hre⟩ := exists_resumed hdoc h1 h hfr h2 hr
      exact ⟨pre, hb, hre.kind.symm, hre.name.symm⟩
    · rintro ⟨pre, hb, rfl, rfl⟩
      obtain ⟨root, hr, hk⟩ := exists_root_second hdoc h1 h hfr h2 hb
      exact ⟨root, hr, hk, (same_name_extensionFields hdoc h1 h h2 hb hr hk).1⟩
  types name defn hg := by
    obtain ⟨os, _, hin, _⟩ := innerTypes_augment hdoc h1 h hfr
    have he := NameMap.mem_of_get? hg
    refine (get?_second hdoc h1 h h2).mpr ⟨?_, ?_⟩
    · rw [hin]
      exact mem_append_left _ (mem_map_of_mem (mem_map_of_mem he))
    · rw [settledType_name]
      exact (isSorted_of_ok h1).nameOfType _ he
  added name defn hg hn := by
    obtain ⟨os, hos, hin, _⟩ := innerTypes_augment hdoc h1 h hfr
    obtain ⟨hdef, rfl⟩ := (get?_second hdoc h1 h h2).mp hg
    rw [hin, mem_append, mem_map] at hdef
    rcases hdef with ⟨decl, hd, rfl⟩ | ho
    · rw [settledType_name] at hn
      exact absurd (NameMap.mem_keys_of_get? (get?_of_mem_values (isSorted_of_ok h1) hd)) hn
    · exact hos defn ho
  extensions name := by
    rw [extensionsOf_eq h2]
    exact filter_typeExts_augment (isSorted_of_ok h1) h name

lemma exists_settled_of_mem_root (hr : root ∈ c2.roots) (hf : fd ∈ root.2.fields) : ∃ decl :
    FieldDef, decl.IsPlain ∧ fd = c1.settledField root.2.name root.2.definition.body.kind decl ∧
    (decl.isOperation ∨ ∃ pre ∈ c1.roots, pre.2.name = root.2.name ∧
      pre.2.definition.body.kind = root.2.definition.body.kind ∧ decl ∈ pre.2.fields) := by
  have hs := isSorted_of_ok h1
  have hp := hdoc.catalog h1
  obtain ⟨pre, hb, after, ha, hre⟩ := exists_resumed hdoc h1 h hfr h2 hr
  obtain ⟨added, hadd, hoff⟩ := hre.grown.fields
  rw [hre.fields, hadd, mem_map] at hf
  obtain ⟨gained, hga, rfl⟩ := hf
  rw [hre.name, hre.body]
  -- A field that was offered needs no more arguments, so it counts as a declared one.
  rcases mem_append.mp hga with hown | hnew
  · obtain ⟨decl, hd, rfl⟩ := mem_map.mp hown
    exact ⟨decl, hp.roots pre hb decl hd, rfl, .inr ⟨pre, hb, rfl, rfl, hd⟩⟩
  · have ho := operationOf?_of_mem_roots hdoc.operations h1 hb
    obtain ⟨hf, hop, heq⟩ := hp.rootField_of_offers hs (offers_of_mem_effects (hoff gained hnew)) ho
    refine ⟨gained, hf, ?_, .inl hop⟩
    rw [settledField, heq]

lemma augmentedRoot_second (hr : root ∈ c2.roots) : augmentedRoot c2 root.2 = root.2 := by
  have hfo := follows_of_augment hdoc h1 h hfr h2
  have hfs : root.2.fields.map (rootField c2 root.2.name) = root.2.fields := by
    refine map_eq_self fun fd hf => ?_
    obtain ⟨decl, hd, rfl, _⟩ := exists_settled_of_mem_root hdoc h1 h hfr h2 hr hf
    exact hfo.rootField_settledField (isSorted_of_ok h1) (hdoc.catalog h1) hd _ _
  rw [augmentedRoot, hfs]

/-- The second time, operation types gain nothing. -/
theorem progress_roots_second : c2.progress.roots = c2.roots := by
  have hfo := follows_of_augment hdoc h1 h hfr h2
  have hrs : c2.roots.map (fun root => (root.1, augmentedRoot c2 root.2)) = c2.roots := by
    refine map_eq_self fun root hr => ?_
    rw [augmentedRoot_second hdoc h1 h hfr h2 hr]
  rw [progress, hrs]
  -- Whatever is offered has a name that was offered before, and the operation type has taken it up.
  refine Progress.roots_run_of_has fun kind fd hof root hr hk => ?_
  obtain ⟨other, ho, hn⟩ := hfo.exists_offer (isSorted_of_ok h1) (hdoc.catalog h1)
    (isSorted_of_ok h2) (offers_of_mem_effects hof)
  obtain ⟨pre, hb, after, ha, hre⟩ := exists_resumed hdoc h1 h hfr h2 hr
  have hak : after.1 = kind := by rw [← hk, hre.kind]; exact hre.grown.kind
  have hhas : after.2.has other.name := Progress.has_of_offer ha (hak ▸ ho)
  rw [← hn, ← hhas, RootType.has, RootType.has, hre.extensionFields, hre.fields, any_map]
  simp [Function.comp_def, retargetIn_name]

lemma augmentRoot_second_succeeds (hr : root ∈ c2.roots) : (augmentRoot c2 root.2).Succeeds := by
  have hfo := follows_of_augment hdoc h1 h hfr h2
  have hp := hdoc.catalog h1
  have hok := (augment_succeeds_iff.mp ⟨aug, h⟩).1
  refine augmentRoot_succeeds_iff.mpr ⟨fun fd hf => ?_, ?_⟩
  · obtain ⟨decl, hd, rfl, hor⟩ := exists_settled_of_mem_root hdoc h1 h hfr h2 hr hf
    refine (hfo.augmentRootField_succeeds_iff hp hd).mpr ?_
    rcases hor with hop | ⟨pre, hb, hn, hk, hm⟩
    · exact augmentRootField_succeeds_iff.mpr fun _ _ _ => hop
    · have hin : root.2.definition.body.isInput = pre.2.definition.body.isInput := by
        rw [TypeBody.isInput, ← hk, TypeBody.isInput]
      rw [← hn, hin]
      exact (augmentRoot_succeeds_iff.mp (hok pre hb)).1 decl hm
  · obtain ⟨pre, hb, _, _, hre⟩ := exists_resumed hdoc h1 h hfr h2 hr
    rw [hre.name]
    refine hfo.augmentRootExtension_succeeds (isSorted_of_ok h1) hp ?_
      (augmentRoot_succeeds_iff.mp (hok pre hb)).2
    rw [operationOf?_of_mem_roots hdoc.operations h1 hb]
    rfl

end Second

end Catalog

end GraphApi
