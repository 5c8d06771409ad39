import GraphApi.Proofs.Api.Members

/-!
# Types that are left out of an API

A type can be left out of the API of an operation: the settings exclude it, its fields are ignored,
or another service owns it. Whatever leads to such a type then refuses. Main statement:
`Document.leavesOut_of_augment`.
-/

namespace GraphApi

open Document FieldDef Catalog

variable {cfg : Settings} {action : String} {types : List Name} {fd : FieldDef} {type : Name}

/-- Reasons for which a type is left out of the API of an operation: the settings exclude it or
switch the operation off, its definition declares fields and all of them are ignored, or it is known
only through extensions. -/
inductive Document.Withholds (cfg : Settings) (doc : Document) (operation : OperationKind)
    (type : Name) : Prop
  | excluded (h : cfg.augments operation type = false) : Withholds cfg doc operation type
  | ignored {defn : TypeDef} (hdef : defn ∈ inForce doc) (hname : defn.name = type)
      (hignored : defn.isIgnored) : Withholds cfg doc operation type
  | external (hundefined : type ∉ (typeDefs doc).map (·.name))
      (hextended : type ∈ (typeExts doc).map (·.name)) : Withholds cfg doc operation type

def Document.IsRelationship (doc : Document) (type : Name) : Prop :=
  ∃ defn ∈ inForce doc, defn.name = type ∧ defn.classification = some .relationship

instance (doc : Document) (type : Name) : Decidable (Document.IsRelationship doc type) :=
  inferInstanceAs (Decidable (∃ defn ∈ inForce doc, _))

def Document.EndsAt (doc : Document) (rel type : Name) : Prop :=
  ∃ defn ∈ inForce doc, defn.name = rel ∧
    defn.classification = some .relationship ∧
    ∃ ends, defn.endpoints? = some ends ∧ (ends.1.type.base = type ∨ ends.2.type.base = type)

def FieldDef.ChangesAt (field : FieldDef) (type : Name) : Prop :=
  ∃ directive ∈ field.directives, directive.name = Mark.mutationMeta.word ∧
    (("from", Literal.ofValue (.text type)) ∈ directive.arguments ∨
      ("to", Literal.ofValue (.text type)) ∈ directive.arguments)

/-- Whether a generated field returns a type under a name that generation itself uses: the payload
of a mutation, or the type of a temporal or spatial kind. -/
def FieldDef.ReturnsGenerated (cfg : Settings) (operation : OperationKind) (field : FieldDef) :
    Prop :=
  (operation = .mutation ∧ field.type.base = payloadName field.name) ∨
    field.type.base ∈ (storedTypes cfg).map (·.name)

/-- A declared field that a withheld type leaves alone: one that returns the type keeps its
arguments, and one that leads to a relationship with it is only retargeted. -/
structure Document.Spares (cfg : Settings) (doc : Document) (type : Name) (kind : TypeKind)
    (decl field : FieldDef) : Prop where
  arguments : decl.type.base = type → field.arguments = decl.arguments.map (·.retarget cfg)
  relationship : doc.EndsAt decl.type.base type → field = decl.retargetIn cfg kind

/-- A generated field that has nothing to do with a type. -/
structure FieldDef.Avoids (cfg : Settings) (operation : OperationKind) (type : Name)
    (field : FieldDef) : Prop where
  returns : field.type.base = type → field.ReturnsGenerated cfg operation
  changes : ¬ field.ChangesAt type

/-! ## Retargeted fields -/

lemma base_retargetIn (cfg : Settings) (kind : TypeKind) (fd : FieldDef) :
    (fd.retargetIn cfg kind).type.base = fd.type.base ∨
      (fd.retargetIn cfg kind).type.base ∈ (storedTypes cfg).map (·.name) := by
  have hou : (fd.retarget cfg).type.base = fd.type.base ∨
      (fd.retarget cfg).type.base ∈ (storedTypes cfg).map (·.name) := by
    unfold retarget
    split
    · exact .inl rfl
    · rcases base_retargetRef cfg storedTypeName fd.type with heq | ⟨stored, hst, hb⟩
      · exact .inl heq
      · obtain ⟨defn, hd, hn⟩ := (mem_storedTypes_of_enabledKind? hst).1
        exact .inr (List.mem_map.mpr ⟨defn, hd, hn.trans hb.symm⟩)
  unfold retargetIn
  split
  · unfold retargetInput
    split
    · exact hou
    · rcases base_retargetRef cfg storedInputName fd.type with heq | ⟨stored, hst, hb⟩
      · exact .inl heq
      · obtain ⟨defn, hd, hn⟩ := (mem_storedTypes_of_enabledKind? hst).2
        exact .inr (List.mem_map.mpr ⟨defn, hd, hn.trans hb.symm⟩)
  · exact hou

lemma name_of_mem_operationDirectives {dir : Directive}
    (h : dir ∈ operationDirectives cfg action types) : dir.name = AuthKind.hasScope.word := by
  unfold operationDirectives at h
  split at h
  · rw [List.mem_singleton.mp h]
  · simp at h

lemma not_changesAt_of_scopes (h : fd.directives = operationDirectives cfg action types)
    (type : Name) : ¬ fd.ChangesAt type := by
  rintro ⟨dir, hdir, hn, -⟩
  rw [h] at hdir
  exact absurd ((name_of_mem_operationDirectives hdir).symm.trans hn) (by decide)

lemma changesAt_mutation {rel : Relationship} {action : RelationshipAction}
    (h : (rel.mutation cfg action).ChangesAt type) :
    type = rel.sourceType ∨ type = rel.targetType := by
  obtain ⟨dir, hdir, hn, hen⟩ := h
  rcases List.mem_cons.mp hdir with rfl | hsc
  · simpa [buildMutationMeta, Literal.ofValue] using hen
  · exact absurd ((name_of_mem_operationDirectives hsc).symm.trans hn) (by decide)

lemma FieldDef.changesAt_retargetIn (cfg : Settings) (kind : TypeKind) (fd : FieldDef)
    (type : Name) : (fd.retargetIn cfg kind).ChangesAt type ↔ fd.ChangesAt type := by
  rw [ChangesAt, directives_retargetIn, ChangesAt]

lemma FieldDef.Avoids.retargetIn {op : OperationKind} (h : fd.Avoids cfg op type)
    (kind : TypeKind) : (fd.retargetIn cfg kind).Avoids cfg op type := by
  refine ⟨fun hre => ?_, mt (changesAt_retargetIn cfg kind fd type).mp h.changes⟩
  rcases base_retargetIn cfg kind fd with heq | hst
  · rcases h.returns (heq.symm.trans hre) with ⟨hmut, hpa⟩ | hst
    · exact .inl ⟨hmut, by rw [heq, retargetIn_name, hpa]⟩
    · exact .inr (heq ▸ hst)
  · exact .inr hst

/-! ## What a withheld type refuses -/

namespace Catalog

variable {type : Name} {fd : FieldDef} {op : OperationKind}

section

variable {cfg : Settings} {doc : Document} {cat : Catalog}
  (hcat : (ofDocument cfg doc).outcome = .ok cat)
include hcat

lemma augments_eq_false_of_withholds (h : Withholds cfg doc op type) :
    cat.augments op type = false := by
  unfold augments
  cases hg : cat.types.get? type with
  | none => simp
  | some defn =>
    obtain ⟨hd, hn⟩ := inForce_of_get? hcat hg
    cases h with
    | excluded h =>
      rw [← ofDocument_settings hcat] at h
      simp [h]
    | ignored ho heq hig =>
      obtain rfl := eq_of_inForce hd ho (hn.trans heq.symm)
      simp [hig]
    | external hun =>
      exact absurd (List.mem_map.mpr ⟨defn, mem_typeDefs_of_inForce hd, hn⟩) hun

lemma isRelationship_of_kind (hk : (fd.describe cat.types).kind = .relationship) :
    doc.IsRelationship fd.type.base := by
  obtain ⟨defn, hg, hcl⟩ := Option.bind_eq_some_iff.mp (bind_classification_of_kind.2 hk)
  obtain ⟨hd, hn⟩ := inForce_of_get? hcat hg
  exact ⟨defn, hd, hn, hcl⟩

lemma not_isRelationship_of_kind (hk : (fd.describe cat.types).kind = .node) :
    ¬ doc.IsRelationship fd.type.base := by
  rintro ⟨other, ho, heq, hrel⟩
  obtain ⟨defn, hg, hcl⟩ := Option.bind_eq_some_iff.mp (bind_classification_of_kind.1 hk)
  obtain ⟨hd, hn⟩ := inForce_of_get? hcat hg
  obtain rfl := eq_of_inForce hd ho (hn.trans heq.symm)
  rw [hcl] at hrel
  exact absurd hrel (by decide)

lemma ends_of_endsAt {owner : TypeDef} {rel : Relationship} (h : cat.Reaches owner fd rel)
    (hen : doc.EndsAt fd.type.base type) : type = rel.sourceType ∨ type = rel.targetType := by
  obtain ⟨desc, ends, hg, hds, rfl⟩ := reached?_eq_some.mp h.reached
  obtain ⟨other, ho, heq, -, otherEnds, hoe, hend⟩ := hen
  obtain ⟨hd, hn⟩ := inForce_of_get? hcat hg
  obtain rfl := eq_of_inForce hd ho (hn.trans heq.symm)
  obtain rfl := Option.some.inj (hds.symm.trans hoe)
  exact hend.imp Eq.symm Eq.symm

lemma spares_of_becomes (hrel : ¬ doc.IsRelationship type) (hwi : Withholds cfg doc .query type)
    {decl gained : FieldDef}
    (h : cat.Becomes decl gained) (kind : TypeKind) :
    Spares cfg doc type kind decl (gained.retargetIn cfg kind) := by
  have hno := augments_eq_false_of_withholds hcat hwi
  rcases h.shape with rfl | ⟨hk, owner, rfl⟩ | ⟨owner, -, rel, hre, hq, rfl⟩
  · exact ⟨fun _ => arguments_retargetIn .., fun _ => rfl⟩
  · refine ⟨fun hb => ?_, fun hen => ?_⟩
    · -- nodes of the type take no arguments beyond the declared ones
      have hta : cat.takesArguments owner decl.type.base = false := by
        simp [takesArguments, hb, hno]
      rw [arguments_retargetIn]
      simp [nodeFieldArguments, hta]
    · obtain ⟨defn, hd, hn, hcl, -⟩ := hen
      exact absurd ⟨defn, hd, hn, hcl⟩ (not_isRelationship_of_kind hcat hk)
  · refine ⟨fun hb => ?_, fun hen => ?_⟩
    · exact absurd (hb ▸ isRelationship_of_kind hcat hre.kind) hrel
    · -- a relationship is queried only if both of its ends are
      rw [Relationship.isQueried, Bool.and_eq_true] at hq
      rcases ends_of_endsAt hcat hre hen with rfl | rfl
      · exact absurd hq.1 (by simp [hno])
      · exact absurd hq.2 (by simp [hno])

lemma avoids_of_offers (hwi : Withholds cfg doc op type) (h : cat.Offers op fd) :
    fd.Avoids cfg op type := by
  have hno := augments_eq_false_of_withholds hcat hwi
  rcases h.shape with ⟨rfl, owner, -, haug, rfl⟩ | ⟨rfl, owner, -, haug, action, rfl⟩ |
    ⟨rfl, owner, -, m, -, rel, -, hmut, action, -, rfl⟩
  · refine ⟨fun hre => ?_, not_changesAt_of_scopes rfl type⟩
    rw [nodeQueryField, Wrappers.base_wrap] at hre
    exact absurd haug (by simp [hre, hno])
  · refine ⟨fun hre => ?_, not_changesAt_of_scopes rfl type⟩
    change owner.name = type at hre
    exact absurd haug (by simp [hre, hno])
  · refine ⟨fun _ => .inl ⟨rfl, rfl⟩, fun hch => ?_⟩
    -- a relationship is changed only if both of its ends are
    simp only [Relationship.isMutable, canMutate, Bool.and_eq_true] at hmut
    rcases changesAt_mutation hch with rfl | rfl
    · exact absurd hmut.1.1.1 (by simp [hno])
    · exact absurd hmut.2.1.1 (by simp [hno])

end

end Catalog

/-- A type that is left out of the API of queries or of mutations is met by no generated field of
that operation, save under the name of a generated type, and declared fields that lead to it are
left alone. -/
theorem Document.leavesOut_of_augment {settings : Settings} {document augmented : Document}
    (h : (Document.augment settings document).outcome = .ok augmented) {type : Name}
    (hrelationship : ¬ Document.IsRelationship document type) :
    ∃ catalog, (Catalog.ofDocument settings document).outcome = .ok catalog ∧
      catalog.HasMembers document augmented
        (fun kind declared field => Document.Withholds settings document .query type →
          Document.Spares settings document type kind declared field)
        (fun operation field => Document.Withholds settings document operation type →
          field.Avoids settings operation type) := by
  obtain ⟨catalog, hcatalog, haugment⟩ := Run.bind_ok_iff.mp h
  refine ⟨catalog, hcatalog, (hasMembers_of_augment hcatalog haugment).imp ?_ ?_⟩
  · rintro kind declared field ⟨gained, hbecomes, rfl⟩ hwithheld
    exact spares_of_becomes hcatalog hrelationship hwithheld hbecomes kind
  · rintro operation field ⟨offered, kind, hoffers, rfl⟩ hwithheld
    exact (avoids_of_offers hcatalog hwithheld hoffers).retargetIn kind

def withoutFilms : Settings := { query := .only ["Film"], mutation := .only ["Film"] }

/-- Films that are excluded: queries and mutations leave them out, and so do the fields that lead to
their sequels. -/
theorem films_left_out : ∃ augmented, (Document.augment withoutFilms filmDocument).outcome = .ok augmented ∧
    Document.Withholds withoutFilms filmDocument .query "Film" ∧ Document.EndsAt filmDocument "Sequel" "Film" ∧
    ∃ catalog, (Catalog.ofDocument withoutFilms filmDocument).outcome = .ok catalog ∧
      catalog.HasMembers filmDocument augmented
        (fun kind declared field => Document.Withholds withoutFilms filmDocument .query "Film" →
          Document.Spares withoutFilms filmDocument "Film" kind declared field)
        (fun operation field => Document.Withholds withoutFilms filmDocument operation "Film" →
          field.Avoids withoutFilms operation "Film") := by
  obtain ⟨augmented, h⟩ := Run.exists_of_isOk
    (by decide +kernel : (augment withoutFilms filmDocument).outcome.isOk)
  refine ⟨augmented, h, .excluded (by decide), ?_, leavesOut_of_augment h (by decide)⟩
  have hsequel : ∃ definition ∈ filmDocument.inForce, definition.name = "Sequel" ∧
      definition.classification = some .relationship ∧
        (definition.endpoints?.map fun ends => ends.1.type.base) = some "Film" := by
    decide
  obtain ⟨definition, hdefinition, hname, hclassification, hend⟩ := hsequel
  obtain ⟨ends, hends, hbase⟩ := Option.map_eq_some_iff.mp hend
  exact ⟨definition, hdefinition, hname, hclassification, ends, hends, .inl hbase⟩

def payloadDocument : Document :=
  [.object "A" [.idField, .many "bs" "B" [] [.relation "BS"]], .object "B" [.idField],
   .object "_AddABsPayload" [.one "note" "String"]]

/-- A declared type that is excluded from mutations is returned by a generated mutation, whose
payload has its name. -/
theorem excluded_payload_returned :
    Document.Withholds { mutation := .only ["_AddABsPayload"] } payloadDocument .mutation "_AddABsPayload" ∧
      ¬ payloadDocument.IsRelationship "_AddABsPayload" ∧
      "Mutation" ∉ payloadDocument.typeDefs.map (·.name) ∧
      ∃ augmented,
        (payloadDocument.augment { mutation := .only ["_AddABsPayload"] }).outcome = .ok augmented ∧
          ∃ type ∈ augmented.typeDefs, type.name = "Mutation" ∧
            ∃ field ∈ type.fields, field.type.base = "_AddABsPayload" :=
  ⟨.excluded (by decide), by decide, by decide, Run.exists_of_any (by decide +kernel)⟩

end GraphApi
