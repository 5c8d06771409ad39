import GraphApi.Proofs.Api.QueryArguments
import GraphApi.Proofs.Api.Registration

/-!
# What a definition keeps

Members keep their place, name, description, directives and the names of their arguments; types and
extensions keep everything but their members, to which only the assigned identifier is added. Main
statements: `keepsType_augmentedType`, `keepsExtension_augmentedExt`, and for operation types
`Catalog.forall₂_completes`.
-/

namespace GraphApi

open List TypeBody FieldDef Catalog Progress TypeDef

variable {body : TypeBody} {args : List ArgumentDef} {cat : Catalog} {defn : TypeDef} {arg : Name}
  {types : NameMap TypeDef} {extn : TypeExt}

/-! ## What is kept -/

def FieldDef.retargetIn (cfg : Settings) (kind : TypeKind) (field : FieldDef) : FieldDef :=
  if kind = .input then field.retargetInput cfg else field.retarget cfg

def FieldDef.reachesReflexive (types : NameMap TypeDef) (field : FieldDef) : Bool :=
  decide ((field.describe types).kind = .relationship) &&
    ((types.get? field.type.base).bind TypeDef.endpoints?).any fun ends =>
      ends.1.type.base == ends.2.type.base

/-- What a member keeps. A field of a relationship type is retyped, and if it reaches a relationship
between nodes of one type, the arguments go to the two directions. -/
structure KeepsField (cfg : Settings) (types : NameMap TypeDef) (kind : TypeKind)
    (decl aug : FieldDef) : Prop where
  name : aug.name = decl.name
  description : aug.description = decl.description
  directives : aug.directives = decl.directives
  default : aug.default = decl.default
  type : (decl.describe types).kind ≠ .relationship → aug.type = (decl.retargetIn cfg kind).type
  arguments : decl.reachesReflexive types = false →
    ∀ arg ∈ decl.arguments, arg.name ∈ aug.arguments.map (·.name)

/-- What a body keeps: its kind and interfaces, and its members, which the added ones follow. -/
structure KeepsBody (cfg : Settings) (types : NameMap TypeDef) (decl aug : TypeBody)
    (added : List FieldDef) : Prop where
  kind : aug.kind = decl.kind
  interfaces : aug.interfaces = decl.interfaces
  fields : ∃ kept, aug.fields = kept ++ added ∧
    Forall₂ (KeepsField cfg types decl.kind) decl.fields kept

/-- What a type keeps that is no operation type. Only a node type changes, and it gains the assigned
identifier at most. -/
structure KeepsType (cfg : Settings) (types : NameMap TypeDef) (decl aug : TypeDef) : Prop where
  name : aug.name = decl.name
  description : aug.description = decl.description
  directives : aug.directives = decl.directives
  body : KeepsBody cfg types decl.body aug.body [] ∨
    KeepsBody cfg types decl.body aug.body [systemIdField]
  untouched : decl.isNode = false → aug = decl.retarget cfg

/-- What an operation type keeps. -/
structure KeepsRoot (cfg : Settings) (types : NameMap TypeDef) (decl aug : TypeDef) : Prop where
  name : aug.name = decl.name
  description : aug.description = decl.description
  directives : aug.directives = decl.directives
  body : ∃ added, KeepsBody cfg types decl.body aug.body added

/-- What an extension keeps. Only those of node types and operation types change, and nothing is
added to them. -/
structure KeepsExtension (cfg : Settings) (types : NameMap TypeDef) (roots : List Name)
    (decl aug : TypeExt) : Prop where
  name : aug.name = decl.name
  directives : aug.directives = decl.directives
  body : KeepsBody cfg types decl.body aug.body []
  untouched : decl.name ∉ roots → (∀ defn, types.get? decl.name = some defn → defn.isNode = false) →
    aug = decl.retarget cfg

/-! ## Bodies -/

variable (cfg : Settings)

@[simp] lemma TypeBody.kind_retarget (body : TypeBody) : (body.retarget cfg).kind = body.kind := by
  cases body <;> rfl

@[simp] lemma TypeBody.interfaces_retarget (body : TypeBody) :
    (body.retarget cfg).interfaces = body.interfaces := by
  cases body <;> rfl

lemma TypeBody.fields_retarget (body : TypeBody) :
    (body.retarget cfg).fields = body.fields.map (·.retargetIn cfg body.kind) := by
  cases body <;> simp [retarget, fields, fields?, retargetIn, kind]

@[simp] lemma TypeBody.kind_withFields (body : TypeBody) (fields : List FieldDef) :
    (body.withFields fields).kind = body.kind := by
  cases body <;> rfl

@[simp] lemma TypeBody.interfaces_withFields (body : TypeBody) (fields : List FieldDef) :
    (body.withFields fields).interfaces = body.interfaces := by
  cases body <;> rfl

lemma TypeBody.fields_withFields {fields : List FieldDef}
    (h : body.fields?.isSome ∨ fields = []) : (body.withFields fields).fields = fields := by
  cases body with
  | object | interface | input => rfl
  | scalar | union | enum => simpa [fields?, withFields, TypeBody.fields, eq_comm] using h

lemma TypeBody.withFields_self (body : TypeBody) : body.withFields body.fields = body := by
  cases body <;> rfl

lemma TypeDef.withFields_self (defn : TypeDef) : defn.withFields defn.fields = defn := by
  simp only [withFields, fields, TypeBody.withFields_self]

lemma TypeExt.withFields_self (extn : TypeExt) : extn.withFields extn.fields = extn := by
  simp only [withFields, fields, TypeBody.withFields_self]

/-! ## Members -/

/-- What a member keeps before temporal and spatial types are retargeted. -/
structure GainsField (types : NameMap TypeDef) (decl aug : FieldDef) : Prop where
  name : aug.name = decl.name
  description : aug.description = decl.description
  directives : aug.directives = decl.directives
  default : aug.default = decl.default
  isOperation : aug.isOperation = decl.isOperation
  type : (decl.describe types).kind ≠ .relationship → aug.type = decl.type
  arguments : decl.reachesReflexive types = false →
    ∀ arg ∈ decl.arguments, arg.name ∈ aug.arguments.map (·.name)

lemma GainsField.refl (types : NameMap TypeDef) (fd : FieldDef) : GainsField types fd fd :=
  ⟨rfl, rfl, rfl, rfl, rfl, fun _ => rfl, fun _ _ => mem_map_of_mem⟩

lemma GainsField.keeps {decl aug : FieldDef} (h : GainsField types decl aug) (cfg : Settings)
    (kind : TypeKind) : KeepsField cfg types kind decl (aug.retargetIn cfg kind) := by
  have har (hrefl : decl.reachesReflexive types = false) : ∀ arg ∈ decl.arguments,
      arg.name ∈ (aug.arguments.map (·.retarget cfg)).map (·.name) := by
    intro arg harg
    rw [map_map]
    exact h.arguments hrefl arg harg
  have hmk (mark : Mark) : aug.marked mark = decl.marked mark := by
    simp [marked, has, h.directives]
  unfold retargetIn
  split
  · exact ⟨h.name, h.description, h.directives, h.default, fun hk => by
        simp [retargetIn, *, FieldDef.retargetInput, FieldDef.retarget, h.type hk, h.isOperation],
        har⟩
  · exact ⟨h.name, h.description, h.directives, h.default,
      fun hk => by simp [retargetIn, *, FieldDef.retarget, h.type hk], har⟩

lemma gainsField_nodeArguments (cat : Catalog) (owner : Name) (fd : FieldDef) :
    GainsField cat.types fd
    { fd with arguments := nodeFieldArguments cat owner (fd.describe cat.types) } := by
  refine ⟨rfl, rfl, rfl, rfl, rfl, fun _ => rfl, fun _ arg harg => ?_⟩
  have hn := mem_map_of_mem (f := (·.name)) harg
  simp only [nodeFieldArguments, nodeArguments, describe_field]
  split
  · exact mem_names_queryArguments hn
  · exact hn

lemma gainsField_retype {fd : FieldDef} {rel : Relationship}
    (hk : (fd.describe cat.types).kind = .relationship) (hre : cat.reached? defn fd = some rel)
    (naming : Name) : GainsField cat.types fd (rel.retype naming (fd.describe cat.types)) := by
  unfold Relationship.retype
  split
  next hrefl =>
    refine ⟨by simp, by simp, by simp, by simp, by simp, fun h => absurd hk h, fun hnot => ?_⟩
    obtain ⟨desc, ends, hg, hen, rfl⟩ := reached?_eq_some.mp hre
    have heq : ends.1.type.base = ends.2.type.base := by
      simpa [Relationship.isReflexive, describeRelationshipType] using hrefl
    simp [reachesReflexive, hk, hg, hen, heq] at hnot
  · refine ⟨by simp, by simp, by simp, by simp, by simp, fun h => absurd hk h, fun _ arg harg => ?_⟩
    simp only [Relationship.arguments, describe_field]
    exact mem_names_queryArguments (mem_map_of_mem harg)

lemma gainsField_fieldGain (cat : Catalog) (defn : TypeDef) (fd : FieldDef) :
    GainsField cat.types fd (fieldGain cat defn fd).field := by
  rcases fieldGain_field_cases cat defn fd with h | ⟨-, -, h⟩ | ⟨rel, hre, -, h⟩
  · rw [h]
    exact .refl _ _
  · rw [h]
    exact gainsField_nodeArguments cat defn.name fd
  · rw [h]
    exact gainsField_retype hre.kind hre.reached _

lemma gainsField_rootField (cat : Catalog) (owner : Name) (fd : FieldDef) :
    GainsField cat.types fd (rootField cat owner fd) := by
  unfold rootField
  dsimp only
  split
  · exact gainsField_nodeArguments cat owner fd
  · exact .refl _ _

def Catalog.gain (cat : Catalog) (owner : Name) (field : FieldDef) : FieldDef :=
  match (cat.types.get? owner).filter TypeDef.isNode with
  | some defn => (fieldGain cat defn field).field
  | none => if (cat.operationOf? owner).isSome then rootField cat owner field else field

lemma gainsField_gain (cat : Catalog) (owner : Name) (fd : FieldDef) :
    GainsField cat.types fd (cat.gain owner fd) := by
  unfold gain
  split
  · exact gainsField_fieldGain ..
  · split
    · exact gainsField_rootField ..
    · exact .refl _ _

lemma Catalog.get?_of_operationOf? (hs : cat.IsSorted) {name : Name}
    (h : (cat.operationOf? name).isSome) : cat.types.get? name = none := by
  obtain ⟨root, hr, rfl⟩ := mem_map.mp (operationOf?_isSome_iff.mp h)
  exact NameMap.get?_eq_none_iff.mpr (hs.rootsApart root hr)

lemma Catalog.operationOf?_of_get? (hs : cat.IsSorted) {name : Name}
    (h : cat.types.get? name = some defn) : cat.operationOf? name = none := by
  by_contra hop
  rw [get?_of_operationOf? hs (Option.isSome_iff_ne_none.mpr hop)] at h
  cases h

lemma Catalog.gain_of_mem_values (hs : cat.IsSorted) (h : defn ∈ cat.types.values) (fd : FieldDef) :
    cat.gain defn.name fd = if defn.isNode then (fieldGain cat defn fd).field else fd := by
  have hg := get?_of_mem_values hs h
  unfold gain
  rw [hg]
  cases hno : defn.isNode <;> simp [Option.filter, hno, operationOf?_of_get? hs hg]

lemma Catalog.gain_of_mem_roots (hs : cat.IsSorted) {root : OperationKind × RootType}
    (h : root ∈ cat.roots)
    (fd : FieldDef) : cat.gain root.2.name fd = rootField cat root.2.name fd := by
  have hso := operationOf?_isSome_iff.mpr (mem_map_of_mem h)
  rw [gain, get?_of_operationOf? hs hso]
  exact if_pos hso

/-! ## Types and extensions -/

lemma Catalog.augmentedType_eq (hs : cat.IsSorted) (h : defn ∈ cat.types.values) :
    augmentedType cat defn =
    defn.withFields (defn.fields.map (cat.gain defn.name) ++ if defn.isNode
      then addedFields cat defn else []) := by
  rw [funext (gain_of_mem_values hs h)]
  unfold augmentedType
  split
  · rfl
  · simp [TypeDef.withFields_self]

lemma Catalog.augmentedExt_eq (cat : Catalog) (extn : TypeExt) :
    cat.augmentedExt extn = extn.withFields (extn.fields.map (cat.gain extn.name)) := by
  unfold augmentedExt gain
  cases (cat.types.get? extn.name).filter isNode with
  | some defn => rfl
  | none =>
    cases (cat.operationOf? extn.name).isSome with
    | true => rfl
    | false => simp [TypeExt.withFields_self]

lemma TypeBody.fields_retarget_withFields (gain : FieldDef → FieldDef) {added : List FieldDef}
    (hadd : body.fields?.isSome ∨ added = []) :
    ((body.withFields (body.fields.map gain ++ added)).retarget cfg).fields =
      body.fields.map (fun fd => (gain fd).retargetIn cfg body.kind) ++
      added.map (·.retargetIn cfg body.kind) := by
  rw [fields_retarget, kind_withFields, fields_withFields, map_append, map_map, Function.comp_def]
  rcases hadd with h | rfl
  · exact .inl h
  · cases hfs : body.fields? with
    | none => simp [fields, hfs]
    | some fields => simp

lemma TypeExt.fields_retarget_withFields (extn : TypeExt) (gain : FieldDef → FieldDef) :
    ((extn.withFields (extn.fields.map gain)).retarget cfg).fields =
      extn.fields.map fun fd => (gain fd).retargetIn cfg extn.body.kind := by
  have hfs := TypeBody.fields_retarget_withFields cfg gain
    (.inr rfl : extn.body.fields?.isSome ∨ [] = [])
  rwa [append_nil, map_nil, append_nil] at hfs

lemma keepsBody_withFields {gain : FieldDef → FieldDef} (added : List FieldDef)
    (hadd : body.fields?.isSome ∨ added = [])
    (hga : ∀ fd ∈ body.fields, GainsField types fd (gain fd)) :
    KeepsBody cfg types body ((body.withFields (body.fields.map gain ++ added)).retarget cfg)
      (added.map (·.retargetIn cfg body.kind)) := by
  refine ⟨by simp, by simp, _, fields_retarget_withFields cfg gain hadd, ?_⟩
  rw [forall₂_map_right_iff, forall₂_same]
  exact fun fd hf => (hga fd hf).keeps cfg body.kind

lemma keepsBody_retarget (types : NameMap TypeDef) (body : TypeBody) :
    KeepsBody cfg types body (body.retarget cfg) [] := by
  refine ⟨by simp, by simp, body.fields.map (·.retargetIn cfg body.kind), ?_, ?_⟩
  · rw [fields_retarget, append_nil]
  · rw [forall₂_map_right_iff, forall₂_same]
    exact fun fd _ => (GainsField.refl types fd).keeps cfg body.kind

lemma systemIdField_retargetIn (kind : TypeKind) :
    systemIdField.retargetIn cfg kind = systemIdField := by
  have hte : TemporalKind.ofWord? (baseKind "String") = none := by decide
  have hsp : SpatialKind.ofWord? (baseKind "String") = none := by decide
  have hkp (typeName : Name → Name) : retargetRef cfg typeName (.plain "String") =
      .plain "String" := by
    simp [retargetRef, enabledKind?, TypeRef.plain, TypeRef.base, hte, hsp]
  unfold retargetIn FieldDef.retarget retargetInput systemIdField
  split <;> simp [hkp]

lemma TypeDef.fields?_isSome_of_isNode (h : defn.isNode) : defn.body.fields?.isSome := by
  unfold isNode classification at h
  cases hb : defn.body <;> simp [hb, isStructural, fields?] at h ⊢

/-- What every augmented type has kept. -/
theorem keepsType_augmentedType (cat : Catalog) (defn : TypeDef) :
    KeepsType cat.settings cat.types defn ((augmentedType cat defn).retarget cat.settings) := by
  unfold augmentedType
  split
  next hno =>
    refine ⟨rfl, rfl, rfl, ?_, fun h => absurd hno (by simp [h])⟩
    have hb (added : List FieldDef) := keepsBody_withFields cat.settings added
      (.inl (fields?_isSome_of_isNode hno)) fun fd _ => gainsField_fieldGain cat defn fd
    unfold augmentedNode
    rcases addedFields_cases cat defn with h | ⟨-, -, h⟩
    · rw [h]
      exact .inl (hb [])
    · rw [h]
      have hone := hb [systemIdField]
      rw [map_singleton, systemIdField_retargetIn] at hone
      exact .inr hone
  · exact ⟨rfl, rfl, rfl, .inl (keepsBody_retarget ..), fun _ => rfl⟩

lemma fields_augmentedType (hno : defn.isNode) (cfg : Settings) :
    ((augmentedType cat defn).retarget cfg).fields =
    defn.fields.map (fun fd => (fieldGain cat defn fd).field.retargetIn cfg defn.body.kind) ++
      (addedFields cat defn).map (·.retargetIn cfg defn.body.kind) := by
  rw [augmentedType, if_pos hno]
  exact fields_retarget_withFields cfg _ (.inl (fields?_isSome_of_isNode hno))

lemma fields_augmentedExt (hg : cat.types.get? extn.name = some defn)
    (hno : defn.isNode) (cfg : Settings) : ((cat.augmentedExt extn).retarget cfg).fields =
      extn.fields.map fun fd => (fieldGain cat defn fd).field.retargetIn cfg extn.body.kind := by
  rw [augmentedExt, hg, Option.filter_some_pos hno]
  exact TypeExt.fields_retarget_withFields ..

lemma fields_augmentedExt_of_root (hg : cat.types.get? extn.name = none)
    (hr : (cat.operationOf? extn.name).isSome)
    (cfg : Settings) : ((cat.augmentedExt extn).retarget cfg).fields = extn.fields.map fun fd =>
        (rootField cat extn.name fd).retargetIn cfg extn.body.kind := by
  rw [augmentedExt, hg, Option.filter_none, hr]
  exact TypeExt.fields_retarget_withFields ..

/-- What every augmented extension has kept. -/
theorem keepsExtension_augmentedExt {roots : List Name} (hrs : ∀ e ∈ cat.roots, e.2.name ∈ roots)
    (extn : TypeExt) : KeepsExtension cat.settings cat.types roots extn
    ((cat.augmentedExt extn).retarget cat.settings) := by
  have heq := cat.augmentedExt_eq extn
  refine ⟨augmentedExt_name cat extn, by rw [heq]; rfl, ?_, fun hnot hno => ?_⟩
  · rw [heq, ← append_nil (map _ _)]
    exact keepsBody_withFields cat.settings [] (.inr rfl) fun fd _ => gainsField_gain cat _ fd
  · have hfi : (cat.types.get? extn.name).filter isNode = none :=
      Option.filter_eq_none_iff.mpr fun defn hg => by simp [hno defn hg]
    have hop : ¬ (cat.operationOf? extn.name).isSome := by
      rw [operationOf?_isSome_iff, mem_map]
      rintro ⟨e, he, hn⟩
      exact hnot (hn ▸ hrs e he)
    rw [augmentedExt, hfi]
    exact congrArg _ (if_neg hop)

lemma exists_of_forall₂ {α β : Type} {related : α → β → Prop} {fst : List α} {snd : List β}
    (h : Forall₂ related fst snd) {item : α} (hi : item ∈ fst) :
    ∃ other ∈ snd, related item other := by
  induction h with
  | nil => simp at hi
  | cons hhe _ ih =>
    rcases mem_cons.mp hi with rfl | hi
    · exact ⟨_, mem_cons_self, hhe⟩
    · obtain ⟨other, ho, hrel⟩ := ih hi
      exact ⟨other, mem_cons_of_mem _ ho, hrel⟩

/-! ## Fields that an operation type gains -/

lemma RootType.fields_retarget_build {root : RootType} (hb : root.definition.body.fields?.isSome)
    (cfg : Settings) :
    (root.build.retarget cfg).fields =
      root.fields.map (·.retargetIn cfg root.definition.body.kind) := by
  change ((root.definition.body.withFields root.fields).retarget cfg).fields = _
  rw [fields_retarget, kind_withFields, fields_withFields (.inl hb)]

namespace Catalog

variable {pre after : OperationKind × RootType}

/-! ## Operation types after all steps -/

/-- What an operation type of a catalog has become after all steps: its fields, then fields offered
to it. -/
structure Completes (cat : Catalog) (before after : OperationKind × RootType)
    (added : List FieldDef) : Prop where
  kind : after.1 = before.1
  definition : after.2.definition = before.2.definition
  generated : after.2.generated = before.2.generated
  fields : after.2.fields = before.2.fields.map (rootField cat before.2.name) ++ added
  offered : ∀ field ∈ added, Event.offer before.1 field ∈ cat.effects
  fresh : ∀ field ∈ added, before.2.has field.name = false
  nodup : (added.map (·.name)).Nodup

lemma Completes.name {added : List FieldDef} (h : cat.Completes pre after added) :
    after.2.name = pre.2.name := by
  rw [RootType.name, RootType.name, h.definition]

lemma has_augmentedRoot (cat : Catalog) (root : RootType) (name : Name) :
    (augmentedRoot cat root).has name = root.has name := by
  simp [RootType.has, augmentedRoot, any_map, Function.comp_def,
    (gainsField_rootField cat root.name _).name]

lemma forall₂_grows (cat : Catalog) :
    Forall₂ (fun pre after => Grows cat.effects (pre.1, augmentedRoot cat pre.2) after)
    cat.roots cat.progress.roots :=
  forall₂_map_left_iff.mp (forall₂_roots_run (cat.roots.map fun e =>
    (e.1, augmentedRoot cat e.2)) cat.effects)

lemma exists_grown (h : pre ∈ cat.roots) :
    ∃ after ∈ cat.progress.roots, Grows cat.effects (pre.1, augmentedRoot cat pre.2) after :=
  exists_of_forall₂ cat.forall₂_grows h

lemma exists_source (h : after ∈ cat.progress.roots) :
    ∃ pre ∈ cat.roots, Grows cat.effects (pre.1, augmentedRoot cat pre.2) after :=
  exists_of_forall₂ cat.forall₂_grows.flip h

/-- An operation type of a catalog is augmented and then offered the fields of its kind. -/
lemma progress_roots (cat : Catalog) : cat.progress.roots = cat.roots.map fun e =>
    (e.1, (augmentedRoot cat e.2).addAll (cat.effects.filterMap (Event.offered? e.1))) := by
  rw [progress, roots_run, map_map]
  rfl

lemma completes_of_gains {root : RootType} {added : List FieldDef}
    (h : (augmentedRoot cat pre.2).Gains root added)
    (hsub : added ⊆ cat.effects.filterMap (Event.offered? pre.1)) :
    cat.Completes pre (pre.1, root) added :=
  ⟨rfl, h.definition, h.generated, h.fields, fun _ hf => Event.mem_offers.mp (hsub hf),
    fun fd hf => (has_augmentedRoot cat pre.2 _).symm.trans (h.fresh fd hf), h.nodup⟩

/-- Every operation type of a catalog is completed, in its place. -/
theorem forall₂_completes (cat : Catalog) :
    Forall₂ (fun pre after => ∃ added, cat.Completes pre after added)
      cat.roots cat.progress.roots := by
  rw [progress_roots, forall₂_map_right_iff]
  refine forall₂_same.mpr fun pre _ => ?_
  obtain ⟨added, hsub, h⟩ := (augmentedRoot cat pre.2).exists_gains
    (cat.effects.filterMap (Event.offered? pre.1))
  exact ⟨added, completes_of_gains h hsub⟩

lemma exists_completes (h : after ∈ cat.progress.roots) :
    ∃ pre ∈ cat.roots, ∃ added, cat.Completes pre after added :=
  exists_of_forall₂ cat.forall₂_completes.flip h

lemma exists_completed (h : pre ∈ cat.roots) :
    ∃ after ∈ cat.progress.roots, ∃ added, cat.Completes pre after added :=
  exists_of_forall₂ cat.forall₂_completes h

end Catalog

end GraphApi
