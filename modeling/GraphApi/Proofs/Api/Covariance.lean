import GraphApi.Proofs.Api.Conservation

/-!
# Types that stand for others

A type stands for an interface that it implements and for a union that it is a member of. What fits
an expected type in a document fits it in the augmented one. Main statements:
`Document.GrowsTo.isMember` and `retargetRef_fits`.
-/

namespace GraphApi

open List TypeBody Schema Document TypeRef Bool SchemaType

variable {pre after schema : Schema} {type want : TypeRef} {name : Name} {doc : Document}

/-! ## References -/

lemma TypeRef.fits_refl (schema : Schema) (type : TypeRef) : type.fits schema type := by
  induction type with
  | named name required => simp [fits]
  | list item required ih => simp [fits, ih]

lemma TypeRef.fits_mono (hm : ∀ name general, pre.isMember name general →
    after.isMember name general) (h : type.fits pre want) : type.fits after want := by
  induction type generalizing want with
  | named name required =>
    cases want with
    | named general needed =>
      simp only [fits, and_eq_true, or_eq_true] at h ⊢
      exact ⟨h.1, h.2.imp_right (hm name general)⟩
    | list => cases h
  | list item required ih =>
    cases want with
    | named => cases h
    | list want needed =>
      simp only [fits, and_eq_true] at h ⊢
      exact ⟨h.1, ih h.2⟩

lemma TypeRef.wrappers_of_fits (h : type.fits schema want) :
    type.wrappers.list = want.wrappers.list ∧
    (want.wrappers.requiredItem → type.wrappers.requiredItem) ∧
      (want.wrappers.requiredList → type.wrappers.requiredList) := by
  induction type generalizing want with
  | named name required =>
    cases want with
    | named general needed =>
      simp only [fits, and_eq_true, or_eq_true, not_eq_true'] at h
      refine ⟨rfl, fun hne => ?_, id⟩
      exact h.1.resolve_right (by simpa [wrappers] using hne)
    | list => cases h
  | list item required ih =>
    cases want with
    | named => cases h
    | list want needed =>
      simp only [fits, and_eq_true, or_eq_true, not_eq_true'] at h
      obtain ⟨-, hi, hl⟩ := ih h.2
      refine ⟨rfl, hi, fun hne => ?_⟩
      simp only [wrappers, or_eq_true] at hne ⊢
      exact hne.imp hl fun hne => h.1.resolve_right (by simp [hne])

lemma TypeRef.wrap_fits (h : type.fits pre want) (after : Schema)
    (name : Name) : (type.wrappers.wrap name).fits after (want.wrappers.wrap name) := by
  obtain ⟨hl, hi, hre⟩ := wrappers_of_fits h
  unfold Wrappers.wrap
  rw [hl]
  have hor {fst snd : Bool} (h : snd → fst) : (fst || !snd) := by
    cases snd <;> simp_all
  cases want.wrappers.list <;> simp [fits, hor hi, hor hre]

/-- References to one base still fit after both are retargeted. -/
theorem retargetRef_fits (hm : ∀ name general, pre.isMember name general →
    after.isMember name general)
    (cfg : Settings) (typeName : Name → Name) (h : type.fits pre want)
    (hb : type.base = want.base) :
    (retargetRef cfg typeName type).fits after (retargetRef cfg typeName want) := by
  unfold retargetRef
  rw [hb]
  split
  · split
    · exact fits_mono hm h
    · exact wrap_fits h after _
  · exact fits_mono hm h

/-! ## Bodies -/

def TypeBody.unionMembers : TypeBody → List Name
  | .union members => members
  | .scalar | .object .. | .interface .. | .enum _ | .input _ => []

def TypeBody.outputFields : TypeBody → List FieldDef
  | .object _ fields | .interface _ fields => fields
  | .scalar | .union _ | .enum _ | .input _ => []

/-- A body that keeps what decides for whom a type stands; its members are changed one by one, and
others are added. -/
structure TypeBody.GrowsTo (cfg : Settings) (change : FieldDef → FieldDef) (added : List FieldDef)
    (decl aug : TypeBody) : Prop where
  kind : aug.kind = decl.kind
  interfaces : aug.interfaces = decl.interfaces
  unionMembers : aug.unionMembers = decl.unionMembers
  outputFields : aug.outputFields =
    decl.outputFields.map (fun field => (change field).retarget cfg) ++ added

lemma TypeBody.growsTo_withFields (cfg : Settings) (body : TypeBody) (change : FieldDef → FieldDef)
    (added : List FieldDef) : body.GrowsTo cfg change (if body.isStructural
      then added.map (·.retarget cfg) else [])
      ((body.withFields (body.fields.map change ++ added)).retarget cfg) := by
  cases body <;> constructor <;>
    simp [withFields, retarget, kind, interfaces, unionMembers, outputFields, fields,
      fields?, isStructural]

/-! ## Extended bodies -/

variable (body : TypeBody) (exts : List TypeBody)

lemma TypeBody.kind_extend : (body.extend exts).kind = body.kind := by
  cases body <;> rfl

lemma TypeBody.interfaces_extend : (body.extend exts).interfaces =
    if body.isStructural then body.interfaces ++ exts.flatMap (·.interfaces) else [] := by
  cases body <;> rfl

lemma TypeBody.unionMembers_extend : (body.extend exts).unionMembers =
    if body.kind = .union then body.unionMembers ++ exts.flatMap (·.unionMembers) else [] := by
  cases body with
  | union ms =>
    simp only [extend, unionMembers, kind, if_true]
    congr 2
    funext extn
    cases extn <;> rfl
  | scalar | object | interface | enum | input => simp [extend, unionMembers, kind]

/-! ## Lookups -/

lemma Schema.isMember_iff {general : Name} :
    schema.isMember name general ↔ ∃ type, schema.type? general = some type ∧
    ((type.body.kind = .union ∧ name ∈ type.body.unionMembers) ∨
      (type.body.kind = .interface ∧ general ∈ schema.interfacesOf name)) := by
  unfold isMember
  cases ht : schema.type? general with
  | none => simp
  | some type =>
    obtain ⟨defn, exts, body⟩ := type
    cases body <;> simp [kind, unionMembers]

lemma Schema.declared_of_get? {type : SchemaType} (h : doc.schemaTypes.get? name = some type) :
    Builtin.isName name = false ∧
    ∃ defn ∈ doc.typeDefs, defn.name = name ∧ type = .ofDefinition doc.typeExts defn := by
  obtain ⟨found, hfo, heq⟩ := mem_map.mp (NameMap.mem_of_mem_ofList (NameMap.mem_of_get? h))
  obtain ⟨rfl, rfl⟩ := Prod.mk.inj heq
  obtain ⟨defn, hdef, rfl⟩ := mem_map.mp hfo
  obtain ⟨hd, hn⟩ := mem_filter.mp hdef
  rw [not_eq_true'] at hn
  exact ⟨hn, defn, hd, rfl, rfl⟩

lemma Schema.get?_of_unique {defn : TypeDef} (h : defn ∈ doc.typeDefs)
    (hun : ∀ other ∈ doc.typeDefs, other.name = defn.name → other = defn)
    (hn : Builtin.isName defn.name = false) :
    doc.schemaTypes.get? defn.name = some (.ofDefinition doc.typeExts defn) := by
  refine NameMap.get?_ofList_of_unique ?_ ?_
  · refine mem_map.mpr ⟨.ofDefinition doc.typeExts defn, ?_, rfl⟩
    exact mem_map_of_mem (mem_filter.mpr ⟨h, by simpa using hn⟩)
  · intro e he heq
    obtain ⟨found, hfo, rfl⟩ := mem_map.mp he
    obtain ⟨other, ho, rfl⟩ := mem_map.mp hfo
    exact congrArg (ofDefinition _) (hun other (mem_of_mem_filter ho) heq)

/-! ## Documents -/

/-- An augmented document as far as its declared types go: each is defined once and extended as it
was, and bodies grow. -/
structure Document.GrowsTo (cfg : Settings) (change : Name → FieldDef → FieldDef)
    (doc aug : Document) : Prop where
  /-- Nothing is added to an interface that is no operation type. -/
  types : ∀ decl ∈ typeDefs doc, ∃ defn ∈ typeDefs aug,
    defn.name = decl.name ∧
    (∀ other ∈ typeDefs aug, other.name = decl.name → other = defn) ∧
    ∃ added, decl.body.GrowsTo cfg (change decl.name) added defn.body ∧
      (decl.body.kind = .interface → decl.name ∉ Catalog.rootNames doc → added = [])
  extensions : ∀ decl ∈ typeExts doc, ∃ extn ∈ typeExts aug,
    extn.name = decl.name ∧ decl.body.GrowsTo cfg (change decl.name) [] extn.body
  extended : ∀ extn ∈ typeExts aug, ∃ decl ∈ typeExts doc,
    extn.name = decl.name ∧ decl.body.GrowsTo cfg (change decl.name) [] extn.body

namespace Document.GrowsTo

variable {cfg : Settings} {change : Name → FieldDef → FieldDef} {doc aug : Document}
  (h : Document.GrowsTo cfg change doc aug) {name : Name}
include h

lemma mem_extensions {list : TypeBody → List Name}
    (hl : ∀ {added : List FieldDef} {change : FieldDef → FieldDef} {pre after : TypeBody},
      pre.GrowsTo cfg change added after → list after = list pre) {type item : Name}
    (hi : item ∈ ((doc.typeExts.filter (·.name == type)).map (·.body)).flatMap list) :
    item ∈ ((aug.typeExts.filter (·.name == type)).map (·.body)).flatMap list := by
  obtain ⟨body, hb, hi⟩ := mem_flatMap.mp hi
  obtain ⟨decl, hd, rfl⟩ := mem_map.mp hb
  obtain ⟨hd, hn⟩ := mem_filter.mp hd
  obtain ⟨extn, hx, heq, hgr⟩ := h.extensions decl hd
  refine mem_flatMap.mpr ⟨_, mem_map_of_mem (mem_filter.mpr ⟨hx, heq ▸ hn⟩), ?_⟩
  rwa [hl hgr]

/-- A type keeps its kind, and all its interfaces and members. -/
lemma type? {type : SchemaType} (hfo : (assemble doc).type? name = some type) :
    ∃ found, (assemble aug).type? name = some found ∧ found.body.kind = type.body.kind ∧
      type.body.interfaces ⊆ found.body.interfaces ∧
      type.body.unionMembers ⊆ found.body.unionMembers := by
  unfold Schema.type? at hfo ⊢
  cases hbi : Builtin.type? name with
  | some defn =>
    rw [hbi] at hfo
    exact ⟨type, hfo, rfl, Subset.refl _, Subset.refl _⟩
  | none =>
    rw [hbi] at hfo
    obtain ⟨hn, decl, hd, rfl, rfl⟩ := declared_of_get? hfo
    obtain ⟨defn, hdef, heq, hun, added, hgr, -⟩ := h.types decl hd
    have hg := get?_of_unique hdef (fun other ho hn => hun other ho (hn.trans heq)) (heq ▸ hn)
    rw [heq] at hg
    refine ⟨_, hg, ?_, ?_, ?_⟩
    · simp only [ofDefinition, kind_extend, hgr.kind]
    · have hst : defn.body.isStructural = decl.body.isStructural := by
        have hk := hgr.kind
        cases hb : decl.body <;> cases ha : defn.body <;>
          simp [hb, ha, kind, isStructural] at hk ⊢
      simp only [ofDefinition, interfaces_extend, heq, hgr.interfaces, hst]
      split
      · exact append_subset.mpr ⟨subset_append_left _ _, fun item hi =>
          mem_append_right _ (h.mem_extensions (fun hgr => hgr.interfaces) hi)⟩
      · exact Subset.refl _
    · simp only [ofDefinition, unionMembers_extend, heq, hgr.unionMembers, hgr.kind]
      split
      · exact append_subset.mpr ⟨subset_append_left _ _, fun item hi =>
          mem_append_right _ (h.mem_extensions (fun hgr => hgr.unionMembers) hi)⟩
      · exact Subset.refl _

/-- Whatever stands for a type in a document stands for it in one that it grows to. -/
theorem isMember {general : Name} (hm : (assemble doc).isMember name general) :
    (assemble aug).isMember name general := by
  obtain ⟨type, ht, hca⟩ := isMember_iff.mp hm
  obtain ⟨found, hfo, hk, -, hun⟩ := h.type? ht
  refine isMember_iff.mpr ⟨found, hfo, ?_⟩
  rw [hk]
  refine hca.imp (And.imp_right fun hmem => hun hmem) (And.imp_right fun hmem => ?_)
  unfold interfacesOf at hmem ⊢
  cases hown : (assemble doc).type? name with
  | none => simp [hown] at hmem
  | some own =>
    obtain ⟨grown, hgr, -, hin, -⟩ := h.type? hown
    rw [hown] at hmem
    rw [hgr]
    exact hin hmem

end Document.GrowsTo

end GraphApi
