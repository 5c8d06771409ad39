import GraphApi.Proofs.Api.KeyMarks

/-!
# Consistent key marks

The check of a node type accepts its fields exactly if at most one is marked as the identifier, no
computed one is a key, and none has two key marks. The other passes fail for other reasons. Main
statement: `Document.accepts_consistent_marks`.
-/

namespace GraphApi

open List Run Pass FieldDef

variable {α β ω : Type} {cat : Catalog} {isInput : Bool} {defn : TypeDef} {fd : FieldDef}
  {info : FieldInfo}

/-- Key marks that the check of a node type accepts. -/
structure AreConsistent (fields : List FieldDef) : Prop where
  ids : (fields.filter (·.marked .id)).length ≤ 1
  computed : ∀ field ∈ fields, field.marked .cypher → ∀ mark ∈ Mark.keys, field.marked mark = false
  single : ∀ field ∈ fields, ∀ first ∈ Mark.keys, ∀ second ∈ Mark.keys, field.marked first →
    field.marked second → first = second

lemma checkKeyMarks_ok_iff {type : Name} : checkKeyMarks type fd = .ok () ↔
    (fd.marked .cypher → ∀ mark ∈ Mark.keys, fd.marked mark = false) ∧
    ∀ fst ∈ Mark.keys, ∀ snd ∈ Mark.keys, fd.marked fst → fd.marked snd → fst = snd := by
  unfold checkKeyMarks keyMarks Mark.keys
  cases fd.marked .cypher <;> cases hid : fd.marked .id <;> cases hun : fd.marked .unique <;>
    cases hin : fd.marked .index <;> simp [hid, hun, hin]

lemma checkNodeFields_ok_iff_consistent {type : Name} {fields : List FieldDef} :
    checkNodeFields type fields = .ok () ↔ AreConsistent fields := by
  rw [checkNodeFields_ok_iff]
  simp only [checkKeyMarks_ok_iff]
  exact ⟨fun ⟨hid, hall⟩ => ⟨hid, fun fd hf => (hall fd hf).1, fun fd hf => (hall fd hf).2⟩,
    fun h => ⟨h.ids, fun fd hf => ⟨h.computed fd hf, h.single fd hf⟩⟩⟩

/-! ## Passes that fail for other reasons -/

/-- The run does not fail for a combination of directives. -/
def Run.AcceptsMarks (run : Run ω Fault α) : Prop := ∀ cause, run.outcome ≠ .error (.schema cause)

lemma Run.Succeeds.acceptsMarks {run : Run ω Fault α} (h : run.Succeeds) : run.AcceptsMarks := by
  obtain ⟨res, hres⟩ := h
  simp [AcceptsMarks, hres]

lemma Run.AcceptsMarks.bind {fst : Run ω Fault α} {next : α → Run ω Fault β} (h : fst.AcceptsMarks)
    (hn : ∀ middle, (next middle).AcceptsMarks) : (fst >>= next).AcceptsMarks := by
  intro cause
  rw [bind_outcome]
  cases hf : fst.outcome with
  | ok middle => exact hn middle cause
  | error fault =>
    rintro ⟨⟩
    exact h cause hf

lemma Run.acceptsMarks_pure {res : α} : (pure res : Run ω Fault α).AcceptsMarks := nofun

lemma Run.AcceptsMarks.andPure {fst : Run ω Fault α} {res : α → β} (h : fst.AcceptsMarks) :
    (fst >>= fun middle => pure (res middle)).AcceptsMarks := h.bind fun _ => acceptsMarks_pure

lemma Run.acceptsMarks_readable (directive : Option Directive) (names : List Name) :
    (ofExcept (checkReadable directive names) : Run ω Fault Unit).AcceptsMarks := by
  intro cause
  unfold checkReadable
  dsimp only
  split <;> simp

lemma Pass.acceptsMarks_each {step : α → Pass β} {items : List α}
    (h : ∀ item ∈ items, (step item).AcceptsMarks) : (each step items).AcceptsMarks := by
  induction items with
  | nil => exact acceptsMarks_pure
  | cons item rest ih =>
    exact (h item mem_cons_self).bind fun _ => (ih (forall_mem_cons.mp h).2).andPure

lemma augmentNodeArguments_acceptsMarks {owner : Name} :
    (augmentNodeArguments cat owner isInput info).AcceptsMarks := by
  cases isInput with
  | true => simp [AcceptsMarks, augmentNodeArguments, bind_outcome]
  | false => exact (augmentNodeArguments_succeeds_iff.mpr rfl).acceptsMarks

lemma augmentRootField_acceptsMarks {owner : Name} :
    (augmentRootField cat owner isInput fd).AcceptsMarks := by
  unfold augmentRootField
  dsimp only
  split
  · exact augmentNodeArguments_acceptsMarks.andPure
  · exact acceptsMarks_pure

lemma augmentRoot_acceptsMarks {root : RootType} : (augmentRoot cat root).AcceptsMarks := by
  have hx (extn : TypeExt) : (augmentRootExtension cat extn).AcceptsMarks := by
    unfold augmentRootExtension
    split
    · exact (acceptsMarks_each fun _ _ => augmentRootField_acceptsMarks).andPure
    · nofun
  exact (acceptsMarks_each fun _ _ => augmentRootField_acceptsMarks).bind fun _ =>
    (acceptsMarks_each fun extn _ => hx extn).andPure

lemma augmentNodeField_acceptsMarks : (augmentNodeField cat defn isInput info).AcceptsMarks := by
  refine augmentNodeArguments_acceptsMarks.bind fun _ =>
    (nodeRelationFilters_yields cat info).succeeds.acceptsMarks.bind fun _ => ?_
  split
  · exact (acceptsMarks_readable _ _).bind fun _ =>
      (augmentRelationshipMutation_yields cat _).succeeds.acceptsMarks.andPure
  · exact (acceptsMarks_pure).andPure

lemma augmentRelationshipQuery_acceptsMarks {rel : Relationship} :
    (augmentRelationshipQuery cat defn isInput info rel).AcceptsMarks := by
  refine (rel.augments_yields cat).succeeds.acceptsMarks.bind fun queried => ?_
  cases queried with
  | false => exact acceptsMarks_pure
  | true =>
    refine (sharedInterface?_yields cat defn rel.field).succeeds.acceptsMarks.bind fun iface => ?_
    -- the rest only registers, unless a member of an input type is to take arguments
    cases isInput <;> cases rel.isReflexive <;> cases iface <;> nofun

lemma augmentRelationshipField_acceptsMarks {desc : TypeDef} {source target : FieldDef}
    (hf : info.field.keyMarks = []) (ht : ∀ m ∈ desc.fields, m.keyMarks = []) :
    (augmentRelationshipField cat defn isInput info desc source target).AcceptsMarks := by
  have hchk (check : Except SchemaFault Unit) (h : check = .ok ()) :
      (ofExcept (check.mapError .schema) : Pass Unit).AcceptsMarks :=
    Succeeds.acceptsMarks ⟨(), mapError_schema_ok_iff.mpr h⟩
  refine (hchk _ (checkRelationshipField_ok_iff.mpr hf)).bind fun _ => ?_
  split
  · exact acceptsMarks_pure
  · refine (hchk _ (checkRelationshipType_ok_iff.mpr ht)).bind fun _ =>
        (acceptsMarks_readable _ _).bind fun _ =>
      AcceptsMarks.bind nofun fun _ => augmentRelationshipQuery_acceptsMarks.bind fun (_, _) => ?_
    dsimp only
    split
    · exact (augmentRelationshipMutation_yields cat _).succeeds.acceptsMarks.andPure
    · exact (acceptsMarks_pure).andPure

lemma directiveDefinitions_acceptsMarks {types : NameMap TypeDef} {decl : NameMap DirectiveDef}
    {cfg : Settings} : (directiveDefinitions types decl cfg).AcceptsMarks := by
  have hro : (ofExcept (checkRoleType types) : Run Notice Fault Unit).AcceptsMarks := by
    unfold checkRoleType
    split
    · nofun
    · split <;> nofun
  have hmd (mark : Mark) : (markDefinition types decl cfg mark).AcceptsMarks := by
    unfold markDefinition
    split
    · exact acceptsMarks_pure
    · split
      · exact acceptsMarks_pure
      · split
        · exact hro.bind fun _ => AcceptsMarks.andPure nofun
        · exact AcceptsMarks.andPure nofun
  have hms (marks : List Mark) : (markDefinitions types decl cfg marks).AcceptsMarks := by
    induction marks with
    | nil => exact acceptsMarks_pure
    | cons mark rest ih => exact (hmd mark).bind fun _ => ih.andPure
  exact (hms _).andPure

namespace Catalog

lemma ofDocument_acceptsMarks (cfg : Settings) (doc : Document) :
    (ofDocument cfg doc).AcceptsMarks := by
  have hro (cat : Catalog) (kind : OperationKind) (name : Name) (decl : Option TypeDef) :
      (cat.setUpRoot kind name decl).AcceptsMarks := by
    unfold setUpRoot
    cases decl with
    | some defn => cases h : defn.body.fields? <;> intro cause <;> simp [h, fail]
    | none =>
      dsimp only
      split
      · exact AcceptsMarks.andPure nofun
      · exact acceptsMarks_pure
  have hrs (cat : Catalog) (list : List (OperationKind × Name × Option TypeDef)) :
      (cat.setUpRoots list).AcceptsMarks := by
    induction list with
    | nil => exact acceptsMarks_pure
    | cons e rest ih => exact (hro cat _ _ _).bind fun _ => ih.andPure
  exact (hrs _ _).andPure

/-- Node types over all their definitions have consistent marks, and there are no key marks at
relationships. -/
structure IsConsistent (cat : Catalog) : Prop where
  nodes : ∀ owner ∈ cat.nodes, AreConsistent (cat.membersOf owner)
  relationships : ∀ defn ∈ cat.types.values, defn.classification = some .relationship →
    ∀ member ∈ cat.membersOf defn, member.keyMarks = []
  fields : ∀ owner ∈ cat.nodes, ∀ field ∈ cat.membersOf owner, (field.describe cat.types).kind =
    .relationship → field.keyMarks = []

section

variable (h : cat.IsConsistent)
include h

lemma IsConsistent.augmentField_acceptsMarks (hno : defn ∈ cat.nodes)
    (hf : fd ∈ cat.membersOf defn) : (augmentField cat defn isInput fd).AcceptsMarks := by
  unfold augmentField
  dsimp only
  split
  · exact acceptsMarks_pure
  · split
    · exact acceptsMarks_pure
    · exact augmentNodeField_acceptsMarks
    next hk =>
      obtain ⟨desc, hg, hcl⟩ := Option.bind_eq_some_iff.mp (bind_classification_of_kind.2 hk)
      simp only [describe_type, hg]
      split
      · refine augmentRelationshipField_acceptsMarks ?_ fun m hm => ?_
        · rw [describe_field]
          exact h.fields defn hno fd hf hk
        · exact h.relationships desc (mem_map_of_mem (NameMap.mem_of_get? hg)) hcl m
            (mem_append_left _ hm)
      · exact acceptsMarks_pure
    · exact acceptsMarks_pure

lemma IsConsistent.augmentNodeType_acceptsMarks (hs : cat.IsSorted) (hno : defn ∈ cat.nodes) :
    (augmentNodeType cat defn).AcceptsMarks := by
  have hb (body : TypeBody) (hbo : body.fields ⊆ cat.membersOf defn) :
      (augmentBody cat defn body).AcceptsMarks := by
    unfold augmentBody
    unfold TypeBody.fields at hbo
    split
    next fields hfs =>
      rw [hfs] at hbo
      exact acceptsMarks_each fun fd hf => h.augmentField_acceptsMarks hno (hbo hf)
    · nofun
  have hchk : checkNodeFields defn.name ((cat.fieldInfos defn.name).map (·.field)) = .ok () := by
    rw [fieldInfos_eq (get?_of_mem_nodes hs hno), map_map, checkNodeFields_ok_iff_consistent]
    simpa [Function.comp_def] using h.nodes defn hno
  refine (Succeeds.acceptsMarks ⟨(), mapError_schema_ok_iff.mpr hchk⟩).bind fun _ =>
    (hb defn.body (subset_append_left _ _)).bind fun _ =>
      AcceptsMarks.bind (acceptsMarks_each fun extn hx => hb extn.body ?_) fun _ => ?_
  · exact fun fd hf => mem_append_right _ (mem_flatMap.mpr ⟨extn, hx, hf⟩)
  · split
    · exact AcceptsMarks.andPure nofun
    · exact (augmentOperations_succeeds ..).acceptsMarks.andPure

lemma IsConsistent.augment_acceptsMarks (hs : cat.IsSorted) : cat.augment.AcceptsMarks := by
  have hfi {α : Type} (roots : Roots) (pass : Pass α) (hpa : pass.AcceptsMarks) :
      (pass.finish roots).AcceptsMarks := by
    intro cause
    unfold finish
    cases hout : pass.outcome with
    | ok res => nofun
    | error fault =>
      rintro ⟨⟩
      exact hpa cause hout
  have hty (defn : TypeDef) (hd : defn ∈ cat.types.values) :
      (augmentType cat defn).AcceptsMarks := by
    refine AcceptsMarks.bind ?_ fun _ => ?_
    · unfold TypeDef.checkEndpoints
      split
      · exact acceptsMarks_readable _ _
      · nofun
    · split
      next hno => exact (h.augmentNodeType_acceptsMarks hs (mem_nodes.mpr ⟨hd, hno⟩)).andPure
      · exact acceptsMarks_pure
  refine (hfi _ _ ((acceptsMarks_each fun _ _ => augmentRoot_acceptsMarks).andPure)).bind
    fun _ => (hfi _ _ (acceptsMarks_each hty)).bind fun _ =>
      directiveDefinitions_acceptsMarks.bind fun _ => ?_
  nofun

end

end Catalog

/-- The check of fields accepts exactly consistent marks. If an augmentation succeeds, then those of
each node type are consistent over its definition and its extensions, and a document is not rejected
for its marks if they are consistent and there are no key marks at relationships. -/
theorem Document.accepts_consistent_marks :
    (∀ type fields, checkNodeFields type fields = .ok () ↔ AreConsistent fields) ∧
    ∀ settings document,
      (∀ augmented, (document.augment settings).outcome = .ok augmented →
        ∃ catalog, (Catalog.ofDocument settings document).outcome = .ok catalog ∧
          ∀ owner ∈ catalog.nodes, AreConsistent (catalog.membersOf owner)) ∧
      ((∀ catalog, (Catalog.ofDocument settings document).outcome = .ok catalog → catalog.IsConsistent) →
        ∀ cause, (document.augment settings).outcome ≠ .error (.schema cause)) := by
  refine ⟨fun type fields => checkNodeFields_ok_iff_consistent, fun settings document => ⟨?_, ?_⟩⟩
  · intro augmented h
    obtain ⟨catalog, hcatalog, haugment⟩ := bind_ok_iff.mp h
    refine ⟨catalog, hcatalog, fun owner howner => ?_⟩
    obtain ⟨-, htypes, -⟩ := Catalog.augment_succeeds_iff.mp ⟨augmented, haugment⟩
    obtain ⟨hvalue, hnode⟩ := Catalog.mem_nodes.mp howner
    obtain ⟨hcheck, -, -⟩ := augmentNodeType_succeeds_iff.mp
      ((augmentType_succeeds_iff.mp (htypes owner hvalue)).2 hnode)
    rw [Catalog.fieldInfos_eq (Catalog.get?_of_mem_nodes (Catalog.isSorted_of_ok hcatalog) howner),
      map_map, checkNodeFields_ok_iff_consistent] at hcheck
    simpa [Function.comp_def] using hcheck
  · intro hconsistent cause hrejected
    rw [Document.augment, bind_outcome] at hrejected
    cases hcatalog : (Catalog.ofDocument settings document).outcome with
    | error fault =>
      rw [hcatalog] at hrejected
      cases hrejected
      exact Catalog.ofDocument_acceptsMarks settings document cause hcatalog
    | ok catalog =>
      rw [hcatalog] at hrejected
      exact (hconsistent catalog hcatalog).augment_acceptsMarks (Catalog.isSorted_of_ok hcatalog)
        cause hrejected

end GraphApi
