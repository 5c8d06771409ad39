import GraphApi.Proofs.Api.Reordering

/-!
# When the passes succeed

A pass over a list succeeds if it succeeds on each item, so the augmentation of a catalog comes down
to single fields. Where types and operation types have distinct names, each kind of operation has at
most one operation type. Main statements: `augmentField_succeeds_iff`,
`augmentRootField_succeeds_iff`, `Catalog.augment_succeeds_iff`, the operation types kind by kind
(`Catalog.roots_eq`), and when a document can be sorted at all (`Catalog.ofDocument_succeeds_iff`).
-/

namespace GraphApi

open Run Pass

variable {α β ε : Type} {cat : Catalog} {isInput : Bool} {defn : TypeDef} {owner : Name}
  {fd : FieldDef} {info : FieldInfo}

def Run.Succeeds {ω ε α : Type} (run : Run ω ε α) : Prop :=
  ∃ result, run.outcome = .ok result

lemma Run.succeeds_bind_iff {ω : Type} {fst : Run ω ε α} {next : α → Run ω ε β} :
    (fst >>= next).Succeeds ↔ ∃ middle, fst.outcome = .ok middle ∧ (next middle).Succeeds := by
  constructor
  · rintro ⟨res, h⟩
    obtain ⟨middle, hmi, hr⟩ := bind_ok_iff.mp h
    exact ⟨middle, hmi, res, hr⟩
  · rintro ⟨middle, hmi, res, hr⟩
    exact ⟨res, bind_ok_iff.mpr ⟨middle, hmi, hr⟩⟩

lemma Pass.succeeds_pure (res : α) : (pure res : Pass α).Succeeds := ⟨res, rfl⟩

section

variable {fst : Pass α} {next : α → Pass β} {middle : α} {effects : List Event}

lemma Pass.Traces.succeeds_bind_iff (h : fst.Traces middle effects) :
    (fst >>= next).Succeeds ↔ fst.Succeeds ∧ (next middle).Succeeds := by
  rw [Run.succeeds_bind_iff]
  constructor
  · rintro ⟨found, hf, hn⟩
    rw [(h.yields hf).eq_of_ok hf] at hn
    exact ⟨⟨found, hf⟩, hn⟩
  · rintro ⟨⟨found, hf⟩, hn⟩
    exact ⟨middle, (h.yields hf).outcome, hn⟩

lemma Pass.Yields.succeeds (h : fst.Yields middle effects) : fst.Succeeds := ⟨middle, h.outcome⟩

lemma Pass.Yields.succeeds_bind_iff (h : fst.Yields middle effects) :
    (fst >>= next).Succeeds ↔ (next middle).Succeeds :=
  h.traces.succeeds_bind_iff.trans (and_iff_right h.succeeds)

end

lemma Pass.succeeds_check_iff {check : Except Fault Unit} {next : Unit → Pass β} :
    (ofExcept check >>= next).Succeeds ↔ check = .ok () ∧ (next ()).Succeeds :=
  (Traces.check check).succeeds_bind_iff.trans (and_congr_left' ⟨fun ⟨_, h⟩ => h, fun h => ⟨(), h⟩⟩)

lemma mapError_schema_ok_iff {check : Except SchemaFault Unit} :
    check.mapError Fault.schema = .ok () ↔ check = .ok () := by
  cases check <;> simp [Except.mapError]

lemma Pass.succeeds_map_iff {pass : Pass α} {f : α → β} :
    (pass >>= fun res => pure (f res)).Succeeds ↔ pass.Succeeds := by
  rw [succeeds_bind_iff]
  exact ⟨fun ⟨middle, hmi, _⟩ => ⟨middle, hmi⟩, fun ⟨middle, hmi⟩ => ⟨middle, hmi, succeeds_pure _⟩⟩

lemma Pass.succeeds_each_iff {step : α → Pass β} {items : List α} :
    (each step items).Succeeds ↔ ∀ item ∈ items, (step item).Succeeds := by
  constructor
  · rintro ⟨results, h⟩ item hi
    obtain ⟨res, _, hres⟩ := exists_of_forall₂ (each_ok_iff.mp h) hi
    exact ⟨res, hres⟩
  · exact exists_each_ok

/-! ## Fields -/

lemma augmentNodeArguments_succeeds_iff : (augmentNodeArguments cat owner isInput info).Succeeds ↔
    isInput = false := by
  cases isInput with
  | true => simp [Run.Succeeds, augmentNodeArguments, bind_outcome]
  | false => simpa using (outputArguments_yields cat owner info).succeeds

/-- The pass over a field of an operation type fails only for members of input types that lead to
nodes. -/
theorem augmentRootField_succeeds_iff : (augmentRootField cat owner isInput fd).Succeeds ↔
    ((fd.describe cat.types).kind = .node → (fd.describe cat.types).isIgnored = false →
      isInput → fd.isOperation) := by
  unfold augmentRootField
  dsimp only
  split
  next hno =>
    simp only [Bool.and_eq_true, decide_eq_true_eq, Bool.not_eq_true'] at hno
    rw [succeeds_map_iff, augmentNodeArguments_succeeds_iff]
    cases isInput <;> cases fd.isOperation <;> simp [hno]
  next hno =>
    refine iff_of_true (succeeds_pure _) fun hk hig => ?_
    simp [hk, hig] at hno

lemma augmentNodeField_succeeds_iff :
    (augmentNodeField cat defn isInput info).Succeeds ↔ isInput = false ∧
    ((info.isRelation && !info.isComputed && defn.isObject) →
      checkReadable (relationDirective info.field.directives) ["direction",
        "name"] = .ok ()) := by
  unfold augmentNodeField
  rw [(augmentNodeArguments_traces ..).succeeds_bind_iff, augmentNodeArguments_succeeds_iff,
    (nodeRelationFilters_yields cat info).succeeds_bind_iff]
  refine and_congr_right fun _ => ?_
  split
  next hrel =>
    rw [succeeds_check_iff, and_iff_left
      (succeeds_map_iff.mpr (augmentRelationshipMutation_yields cat _).succeeds)]
    simp [hrel]
  next hrel => exact iff_of_true (succeeds_pure _) fun h => absurd h hrel

/-- Away from relationships, the pass over a field fails only for members of input types that lead
to nodes. -/
theorem augmentField_succeeds_iff (hk : (fd.describe cat.types).kind ≠ .relationship)
    (hrel : fd.marked .relation = false) : (augmentField cat defn isInput fd).Succeeds ↔
      ((fd.describe cat.types).kind = .node → (fd.describe cat.types).isIgnored = false →
        isInput = false) := by
  have hmk : (fd.describe cat.types).isRelation = false := by
    simpa [FieldInfo.isRelation] using hrel
  unfold augmentField
  dsimp only
  split
  next hig => exact iff_of_true (succeeds_pure _) fun _ ho => absurd (hig.symm.trans ho) (by decide)
  next hig =>
    cases hca : (fd.describe cat.types).kind with
    | property => simpa using succeeds_pure _
    | relationship => exact absurd hca hk
    | other => simpa using succeeds_pure _
    | node =>
      simp only [hig, true_implies]
      simp [augmentNodeField_succeeds_iff, hmk]

/-! ## Types -/

lemma forM_ok_iff {check : α → Except ε Unit} {items : List α} :
    items.forM check = .ok () ↔ ∀ item ∈ items, check item = .ok () := by
  induction items with
  | nil => simp [pure, Except.pure]
  | cons item rest ih =>
    have hcons : (item :: rest).forM check = (do check item; rest.forM check) := rfl
    rw [hcons, List.forall_mem_cons, ← ih]
    cases check item with
    | error fault => simp [bind, Except.bind]
    | ok _ => simp [bind, Except.bind]

lemma checkNodeFields_ok_iff {type : Name} {fields : List FieldDef} :
    checkNodeFields type fields = .ok () ↔ (fields.filter (·.marked .id)).length ≤ 1 ∧
      ∀ fd ∈ fields, checkKeyMarks type fd = .ok () := by
  unfold checkNodeFields
  simp only [List.length_map]
  split
  next hse => simp [Nat.not_le.mpr hse]
  next hse =>
    rw [forM_ok_iff]
    simp [Nat.le_of_not_lt hse]

lemma augmentBody_succeeds_iff {body : TypeBody} :
    (augmentBody cat defn body).Succeeds ↔ body.fields?.isSome ∧
    ∀ fd ∈ body.fields, (augmentField cat defn body.isInput fd).Succeeds := by
  unfold augmentBody TypeBody.fields
  cases body.fields? with
  | none => simp [Run.Succeeds]
  | some fields => simpa using succeeds_each_iff

lemma augmentOperations_succeeds (cat : Catalog) (defn : TypeDef) (gains : List FieldGain) :
    (augmentOperations cat defn gains).Succeeds := by
  unfold augmentOperations
  cases defn.isObject with
  | false => exact ⟨_, ((augmentNodeQuery_yields ..).map _).outcome⟩
  | true => exact ⟨_, ((augmentNodeMutations_yields ..).bind
      ((augmentNodeQuery_yields ..).map _)).outcome⟩

lemma augmentNodeType_succeeds_iff : (augmentNodeType cat defn).Succeeds ↔
    checkNodeFields defn.name ((cat.fieldInfos defn.name).map (·.field)) = .ok () ∧
    (augmentBody cat defn defn.body).Succeeds ∧
    ∀ extn ∈ cat.extensionsOf defn.name, (augmentBody cat defn extn.body).Succeeds := by
  unfold augmentNodeType
  rw [succeeds_check_iff, mapError_schema_ok_iff, (augmentBody_traces ..).succeeds_bind_iff,
    (Traces.each fun extn _ => augmentBody_traces cat defn extn.body).succeeds_bind_iff,
    succeeds_each_iff]
  refine and_congr_right fun _ => and_congr_right fun _ => and_iff_left ?_
  split
  · exact ⟨_, rfl⟩
  · exact succeeds_map_iff.mpr (augmentOperations_succeeds ..)

lemma augmentType_succeeds_iff : (augmentType cat defn).Succeeds ↔ defn.checkEndpoints = .ok () ∧
    (defn.isNode → (augmentNodeType cat defn).Succeeds) := by
  unfold augmentType
  rw [succeeds_check_iff]
  refine and_congr_right fun _ => ?_
  cases defn.isNode with
  | false => simpa using succeeds_pure _
  | true => simpa using succeeds_map_iff

/-! ## Operation types -/

lemma augmentRootExtension_succeeds_iff {extn : TypeExt} :
    (augmentRootExtension cat extn).Succeeds ↔ extn.body.fields?.isSome ∧ ∀ fd ∈ extn.fields,
        (augmentRootField cat extn.name extn.body.isInput fd).Succeeds := by
  unfold augmentRootExtension TypeExt.fields TypeBody.fields
  cases extn.body.fields? with
  | none => simp [Run.Succeeds]
  | some fields =>
    rw [succeeds_map_iff, succeeds_each_iff]
    simp

lemma augmentRoot_succeeds_iff {root : RootType} : (augmentRoot cat root).Succeeds ↔
    (∀ fd ∈ root.fields, (augmentRootField cat root.name root.definition.body.isInput
      fd).Succeeds) ∧
    ∀ extn ∈ cat.extensionsOf root.name, (augmentRootExtension cat extn).Succeeds := by
  unfold augmentRoot
  rw [(Traces.eachQuiet fun fd _ => augmentRootField_traces cat root.name _ fd).succeeds_bind_iff,
    succeeds_each_iff, succeeds_map_iff, succeeds_each_iff]

/-- An augmentation succeeds if the passes over all types do. -/
theorem Catalog.augment_succeeds_iff :
    cat.augment.Succeeds ↔ (∀ e ∈ cat.roots, (augmentRoot cat e.2).Succeeds) ∧
    (∀ defn ∈ cat.types.values, (augmentType cat defn).Succeeds) ∧
    (directiveDefinitions cat.types cat.directives cat.settings).Succeeds := by
  have hrs : (augmentRoots cat).Succeeds ↔ ∀ e ∈ cat.roots, (augmentRoot cat e.2).Succeeds := by
    unfold augmentRoots
    rw [succeeds_map_iff, succeeds_each_iff]
  rw [← hrs, ← succeeds_each_iff]
  exact augment_isOk_iff

/-! ## The operation types of a document -/

open List OperationKind

def Document.rootName (doc : Document) (kind : OperationKind) : Name :=
  Catalog.rootName doc.schemaDefs.getLast? kind

def Document.declaredRoot? (doc : Document) (kind : OperationKind) : Option TypeDef :=
  doc.typeDefs.find? (·.name == doc.rootName kind)

lemma OperationKind.mem_all (kind : OperationKind) : kind ∈ all := by
  cases kind <;> decide

namespace Catalog

variable {name : Name} {kind : OperationKind} {decl : Option TypeDef}
  {root : OperationKind × RootType} {doc : Document} {cat : Catalog}

lemma mem_rootNames (kind : OperationKind) :
    doc.rootName kind ∈ rootNames doc := mem_map_of_mem (mem_all kind)

lemma exists_of_mem_rootNames (h : name ∈ rootNames doc) : ∃ kind, doc.rootName kind = name := by
  obtain ⟨kind, _, hn⟩ := mem_map.mp h
  exact ⟨kind, hn⟩

lemma rootName_inj (hrs : (rootNames doc).Nodup) {other : OperationKind}
    (h : doc.rootName kind = doc.rootName other) : kind = other :=
  inj_on_of_nodup_map hrs (mem_all kind) (mem_all other) h

lemma setUpRoot_succeeds_iff : (cat.setUpRoot kind name decl).Succeeds ↔
    ∀ defn, decl = some defn → defn.body.fields?.isSome := by
  unfold setUpRoot
  cases decl with
  | none =>
    refine iff_of_true ?_ fun _ hno => by cases hno
    dsimp only
    split
    · exact ⟨_, rfl⟩
    · exact ⟨_, rfl⟩
  | some defn =>
    cases hfs : defn.body.fields? with
    | none => simp [Run.Succeeds, hfs]
    | some fields =>
      refine iff_of_true ?_ fun other ho => ?_
      · dsimp only
        rw [hfs]
        exact ⟨_, rfl⟩
      · obtain rfl := Option.some.inj ho
        simp [hfs]

lemma setUpRoots_succeeds_iff {es : List (OperationKind × Name × Option TypeDef)} :
    (cat.setUpRoots es).Succeeds ↔
    ∀ e ∈ es, ∀ defn, e.2.2 = some defn → defn.body.fields?.isSome := by
  induction es with
  | nil => exact iff_of_true ⟨[], rfl⟩ fun _ he => absurd he not_mem_nil
  | cons e rest ih =>
    have he : (cat.setUpRoot e.1 e.2.1 e.2.2).Succeeds ↔ _ := setUpRoot_succeeds_iff
    rw [forall_mem_cons, ← ih, ← he]
    constructor
    · intro h
      obtain ⟨fst, h1, h⟩ := succeeds_bind_iff.mp h
      obtain ⟨os, hos, _⟩ := succeeds_bind_iff.mp h
      exact ⟨⟨fst, h1⟩, os, hos⟩
    · rintro ⟨⟨fst, h1⟩, os, hos⟩
      exact succeeds_bind_iff.mpr ⟨fst, h1, succeeds_bind_iff.mpr ⟨os, hos, _, rfl⟩⟩

lemma isSome_root?_iff : (cat.root? kind).isSome ↔ ∃ root ∈ cat.roots, root.1 = kind := by
  rw [root?, ← not_iff_not, Bool.not_eq_true, Option.isSome_eq_false_iff, Option.isNone_iff_eq_none,
    lookup_eq_none_iff]
  push Not
  refine forall₂_congr fun root _ => ?_
  rw [bne_iff_ne]
  exact ne_comm

lemma rootsOf_eq_nil_iff : cat.rootsOf kind name decl = [] ↔ decl = none ∧
    cat.createsRoot kind = false := by
  unfold rootsOf
  cases decl with
  | some defn => simp
  | none => cases cat.createsRoot kind <;> simp

lemma exists_mem_rootsOf (name : Name) (h : decl = none → cat.createsRoot kind) :
    ∃ root ∈ cat.rootsOf kind name decl, root.1 = kind := by
  obtain hem | ⟨root, hr⟩ := rootsOf_cases cat kind name decl
  · obtain ⟨hd, hcr⟩ := rootsOf_eq_nil_iff.mp hem
    exact absurd (h hd) (Bool.eq_false_iff.mp hcr)
  · exact ⟨(kind, root), hr ▸ mem_singleton_self _, rfl⟩

lemma created_of_mem_rootsOf (hr : root ∈ cat.rootsOf kind name none) :
    root.2.definition.body.kind = .object ∧ root.2.fields = [] ∧ root.2.generated := by
  rw [rootsOf] at hr
  split at hr
  · rw [mem_singleton.mp hr]
    exact ⟨rfl, rfl, rfl⟩
  · cases hr

lemma declared_of_generated (hr : root ∈ cat.rootsOf kind name decl) (h : root.2.generated) :
    decl = none := by
  cases decl with
  | none => rfl
  | some defn =>
    rw [rootsOf, mem_singleton] at hr
    rw [hr] at h
    cases h

lemma mem_keptRoots {roots : Roots} :
    root ∈ keptRoots roots ↔ root ∈ roots ∧ (root.2.generated → root.2.fields ≠ []) := by
  rw [keptRoots, mem_filter]
  refine and_congr_right fun _ => ?_
  cases root.2.generated <;> simp

section
variable {cfg : Settings} {doc : Document} (hts : (doc.typeDefs.map (·.name)).Nodup)
  (hrs : (rootNames doc).Nodup)
include hts hrs

omit hrs in
lemma declaredRoot?_eq_some_iff {defn : TypeDef} : doc.declaredRoot? kind = some defn ↔
    defn ∈ doc.typeDefs ∧ defn.name = doc.rootName kind := find?_name_eq_some_iff hts

lemma declaredRoots_eq : declaredRoots cfg doc =
    all.map fun kind => (kind, doc.rootName kind, doc.declaredRoot? kind) := by
  have hfn (name : Name) : (sorted cfg doc).types.get? name =
      doc.typeDefs.find? (·.name == name) := by
    rw [sorted_types_of_nodup cfg hts, NameMap.get?_map_name]
  rw [declaredRoots, takeRoots_fst _ hrs]
  simp [rootNames, OperationKind.all, hfn, Document.declaredRoot?, Document.rootName]

/-- A document can be sorted unless an operation type has no fields to add to. -/
theorem ofDocument_succeeds_iff : (ofDocument cfg doc).Succeeds ↔
    ∀ kind defn, doc.declaredRoot? kind = some defn → defn.body.fields?.isSome := by
  have hso : (ofDocument cfg doc).Succeeds ↔
      ((withoutRoots cfg doc).setUpRoots (declaredRoots cfg doc)).Succeeds := by
    constructor
    · rintro ⟨cat, h⟩
      obtain ⟨roots, hset, _⟩ := ofDocument_ok_iff.mp h
      exact ⟨roots, hset⟩
    · rintro ⟨roots, hset⟩
      exact ⟨_, ofDocument_ok_iff.mpr ⟨roots, hset, rfl⟩⟩
  rw [hso, setUpRoots_succeeds_iff, declaredRoots_eq hts hrs, forall_mem_map]
  exact ⟨fun h kind => h kind (mem_all kind), fun h kind _ => h kind⟩

variable {cat : Catalog} (hcat : (ofDocument cfg doc).outcome = .ok cat)
include hcat

/-- The operation types of a catalog, kind by kind. -/
theorem roots_eq : cat.roots = all.flatMap fun kind =>
    cat.rootsOf kind (doc.rootName kind) (doc.declaredRoot? kind) := by
  rw [ofDocument_eq hcat, declaredRoots_eq hts hrs, flatMap_map]
  rfl

lemma mem_roots_iff : root ∈ cat.roots ↔
    root ∈ cat.rootsOf root.1 (doc.rootName root.1) (doc.declaredRoot? root.1) := by
  rw [roots_eq hts hrs hcat, mem_flatMap]
  constructor
  · rintro ⟨kind, _, hr⟩
    rcases cat.rootsOf_cases kind (doc.rootName kind) (doc.declaredRoot? kind) with
      hno | ⟨own, hown⟩
    · rw [hno] at hr
      cases hr
    · have hk : root.1 = kind := by
        rw [hown, mem_singleton] at hr
        rw [hr]
      rwa [hk]
  · intro hr
    exact ⟨root.1, mem_all root.1, hr⟩

lemma name_of_mem_roots (hr : root ∈ cat.roots) : root.2.name = doc.rootName root.1 := by
  have he : (root.1, doc.rootName root.1, doc.declaredRoot? root.1) ∈ declaredRoots cfg doc := by
    rw [declaredRoots_eq hts hrs]
    exact mem_map.mpr ⟨root.1, mem_all root.1, rfl⟩
  exact name_of_mem_rootsOf cfg he ((mem_roots_iff hts hrs hcat).mp hr)

omit hts in
lemma operationOf?_eq_some_iff :
    cat.operationOf? name = some kind ↔ ∃ root ∈ cat.roots, root.1 = kind ∧ root.2.name = name := by
  have hnd : (cat.roots.map (·.2.name)).Nodup := hrs.sublist (sublist_names_roots hcat)
  simp only [operationOf?, Option.map_eq_some_iff, find?_name_eq_some_iff hnd, and_assoc,
    and_comm (a := Prod.fst _ = _)]

omit hts in
lemma operationOf?_of_mem_roots (hr : root ∈ cat.roots) :
    cat.operationOf? root.2.name = some root.1 :=
  (operationOf?_eq_some_iff hrs hcat).mpr ⟨root, hr, rfl, rfl⟩

omit hts hrs in
lemma extensionFields_of_mem_roots
    (hr : root ∈ cat.roots) : root.2.extensionFields = cat.extensionFieldNames root.2.name := by
  obtain ⟨_, _, _, hfs⟩ := exists_declaredRoot hcat hr
  rw [hfs, extensionFieldNames_eq hcat]

end

end Catalog

end GraphApi
