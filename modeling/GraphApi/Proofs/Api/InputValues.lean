import GraphApi.Proofs.Api.Conservation
import GraphApi.Proofs.Api.KeyChoice
import GraphApi.Proofs.Api.Provision
import GraphApi.Proofs.Api.Retargeting

/-!
# Where the input values of an augmented document come from

An input value is an argument of a member or a member of an input type. `Catalog.Accounts` says
where the type of one may come from. Here stand the rules for the lists of arguments that generated
definitions are made of.
-/

namespace GraphApi

open List TypeBody NameMap FieldDef

/-- The input values of a member by name and named type: its arguments, and the member itself in an
input type. -/
def FieldDef.inputValues (isInput : Bool) (field : FieldDef) : List (Name × Name) :=
  (if isInput then [(field.name, field.type.base)] else []) ++
    field.arguments.map fun arg => (arg.name, arg.type.base)

def valuesOf (members : List FieldDef) (isInput : Bool) (name : Name) : List (Name × Name) :=
  (members.filter (·.name == name)).flatMap (FieldDef.inputValues isInput)

/-- An input value of a document, with the type or extension and the member that hold it. -/
structure InputSite where
  holder : Name
  member : Name
  value : Name
  type : Name

def TypeBody.inputSites (body : TypeBody) (holder : Name) : List InputSite :=
  body.fields.flatMap fun field =>
    (field.inputValues body.isInput).map fun value => ⟨holder, field.name, value.1, value.2⟩

def Document.inputSites (doc : Document) : List InputSite :=
  (doc.typeDefs.flatMap fun defn => defn.body.inputSites defn.name) ++
    doc.typeExts.flatMap fun extn => extn.body.inputSites extn.name

lemma TypeBody.mem_inputSites_of_valuesOf {body : TypeBody} {holder m : Name} {value : Name × Name}
    (h : value ∈ valuesOf body.fields body.isInput m) :
    (⟨holder, m, value.1, value.2⟩ : InputSite) ∈ body.inputSites holder := by
  obtain ⟨fd, hf, hv⟩ := mem_flatMap.mp h
  obtain ⟨hm, hn⟩ := mem_filter.mp hf
  refine mem_flatMap.mpr ⟨fd, hm, mem_map.mpr ⟨value, hv, ?_⟩⟩
  rw [show fd.name = m by simpa using hn]

lemma TypeBody.mem_of_mem_withFields {body : TypeBody} {fields : List FieldDef} {fd : FieldDef}
    (h : fd ∈ (body.withFields fields).fields) : fd ∈ fields := by
  cases body <;> simp [withFields, TypeBody.fields, fields?] at h <;> exact h

lemma TypeBody.isInput_withFields (body : TypeBody) (fields : List FieldDef) :
    (body.withFields fields).isInput = body.isInput := by
  rw [isInput, isInput, kind_withFields]

namespace Catalog

variable {type name : Name} {infos : List FieldInfo} {info : FieldInfo} {fd : FieldDef}
  {body : TypeBody}
  {args : List ArgumentDef} {arg : ArgumentDef} {isList : Bool} {ordering filter : Option Name}
  {types : NameMap TypeDef} {defn : TypeDef}

variable (cat : Catalog)

/-- The input types of a relationship that a field refers to under the name of an interface that
declares it. The field does not register them itself. -/
def Borrows (name : Name) : Prop :=
  ∃ owner ∈ cat.nodes, ∃ field ∈ cat.membersOf owner, ∃ rel iface,
    cat.Reaches owner field rel ∧ rel.isQueried cat ∧
      cat.shared? owner field.name = some iface ∧
      (name = rel.filterName iface ∨ name = rel.orderingName ∨
        (rel.isReflexive ∧ name = rel.directionsFilterName))

def memberTypes : List Name :=
  (cat.types.values.flatMap TypeDef.fields ++
    (cat.extensions.flatMap (·.2)).flatMap TypeExt.fields).map (·.type.base)

/-- Where the type of an input value comes from, if the document declares the given values in its
place. A property has the type of a member or a built-in scalar. -/
inductive Accounts (cat : Catalog) (declared : List (Name × Name)) : Name × Name → Prop
  | declared {value : Name × Name} (h : value ∈ declared) : Accounts cat declared value
  | known {value : Name × Name} (h : value.2 ∈ cat.types.keys ∨ value.2 ∈ cat.generated.keys) :
      Accounts cat declared value
  | property {value : Name × Name} (h : (categoryOf cat.types value.2).isSome)
      (hsource : value.2 ∈ Builtin.scalarNames ∨ value.2 ∈ cat.memberTypes) :
      Accounts cat declared value
  | borrowed {value : Name × Name} (h : cat.Borrows value.2) : Accounts cat declared value

def AccountsAll (decl : List (Name × Name)) (arguments : List ArgumentDef) : Prop :=
  ∀ arg ∈ arguments, cat.Accounts decl (arg.name, arg.type.base)

/-- Each input value of a member is accounted for: its arguments, and the member itself in an input
type. -/
structure AccountsField (cat : Catalog) (decl : List (Name × Name)) (isInput : Bool)
    (field : FieldDef) : Prop where
  arguments : cat.AccountsAll decl field.arguments
  type : isInput → cat.Accounts decl (field.name, field.type.base)

/-- Each input value of a body is accounted for, if the document declares the given values in place
of a member. -/
def AccountsBody (decl : Name → List (Name × Name)) (body : TypeBody) : Prop :=
  ∀ field ∈ body.fields, cat.AccountsField (decl field.name) body.isInput field

/-! ## Retargeting -/

lemma mem_storedTypes_of_enabledKind? {cfg : Settings} {kind : Name}
    (h : enabledKind? cfg type = some kind) :
    (∃ defn ∈ storedTypes cfg, defn.name = storedTypeName kind) ∧
      ∃ defn ∈ storedTypes cfg, defn.name = storedInputName kind := by
  have hpa (ms : List ArgumentDef) (h : storedTypePair kind ms ⊆ storedTypes cfg) :
      (∃ defn ∈ storedTypes cfg, defn.name = storedTypeName kind) ∧
        ∃ defn ∈ storedTypes cfg, defn.name = storedInputName kind :=
    ⟨⟨_, h mem_cons_self, rfl⟩, _, h (mem_cons_of_mem _ mem_cons_self), rfl⟩
  obtain ⟨-, ⟨temporal, rfl, hen⟩ | ⟨spatial, rfl, hen⟩⟩ := enabledKind?_eq_some.mp h
  · refine hpa temporal.members fun defn hd => mem_append_left _ ?_
    have hli : temporal ∈ TemporalKind.all := by cases temporal <;> decide
    exact mem_flatMap.mpr ⟨temporal, mem_filter.mpr ⟨hli, hen⟩, hd⟩
  · refine hpa spatial.members fun defn hd => mem_append_right _ ?_
    have hli : spatial ∈ SpatialKind.all := by
      cases spatial
      decide
    exact mem_flatMap.mpr ⟨spatial, mem_filter.mpr ⟨hli, hen⟩, mem_append_left _ hd⟩

lemma base_retargetRef (cfg : Settings) (typeName : Name → Name) (type : TypeRef) :
    (retargetRef cfg typeName type).base = type.base ∨
      ∃ kind, enabledKind? cfg type.base = some kind ∧ (retargetRef cfg typeName type).base =
      typeName kind := by
  unfold retargetRef
  split
  next kind hk =>
    split
    · exact .inl rfl
    · exact .inr ⟨kind, hk, Wrappers.base_wrap _ _⟩
  · exact .inl rfl

section Accounts

variable {cat : Catalog} {decl : List (Name × Name)}

lemma Accounts.mem_or {value : Name × Name} (h : cat.Accounts decl value) :
    value ∈ decl ∨ cat.Accounts [] value := by
  cases h with
  | declared h => exact .inl h
  | known h => exact .inr (.known h)
  | property h hsrc => exact .inr (.property h hsrc)
  | borrowed h => exact .inr (.borrowed h)

/-- The types of the kinds are there for retargeted references. -/
lemma Accounts.retargetRef {type : TypeRef} (h : cat.Accounts decl (name, type.base))
    {typeName : Name → Name} (htn : typeName = storedTypeName ∨ typeName = storedInputName) :
    cat.Accounts decl (name, (retargetRef cat.settings typeName type).base) := by
  rcases base_retargetRef cat.settings typeName type with heq | ⟨kind, hk, hb⟩
  · rwa [heq]
  · rw [hb]
    refine .known (.inr (mem_keys_generated_of_stored ?_))
    rcases htn with rfl | rfl
    · exact (mem_storedTypes_of_enabledKind? hk).1
    · exact (mem_storedTypes_of_enabledKind? hk).2

lemma AccountsField.retargetIn {kind : TypeKind}
    (h : cat.AccountsField decl (decide (kind = .input)) fd) :
    cat.AccountsField decl (decide (kind = .input)) (fd.retargetIn cat.settings kind) := by
  have har : cat.AccountsAll decl (fd.arguments.map (·.retarget cat.settings)) := by
    refine forall_mem_map.mpr fun pre hb => ?_
    exact (h.arguments pre hb).retargetRef (.inr rfl)
  unfold FieldDef.retargetIn
  split
  · refine ⟨har, fun hin => ?_⟩
    simp only [retargetInput, FieldDef.retarget]
    split
    · split
      · exact h.type hin
      · exact (h.type hin).retargetRef (.inl rfl)
    · exact (h.type hin).retargetRef (.inr rfl)
  next hk => exact ⟨har, fun hin => absurd (by simpa using hin) hk⟩

lemma retargetIn_name (cfg : Settings) (kind : TypeKind) (fd : FieldDef) :
    (fd.retargetIn cfg kind).name = fd.name := by
  unfold retargetIn
  split <;> rfl

lemma AccountsBody.retarget {decl : Name → List (Name × Name)}
    (h : cat.AccountsBody decl body) : cat.AccountsBody decl (body.retarget cat.settings) := by
  intro fd hf
  rw [fields_retarget] at hf
  obtain ⟨pre, hb, rfl⟩ := mem_map.mp hf
  have hown := h pre hb
  rw [retargetIn_name, isInput, kind_retarget]
  exact hown.retargetIn

/-! ## Arguments that page, order and filter -/

lemma accounts_builtin (h : type ∈ Builtin.scalarNames) (name : Name) :
    cat.Accounts decl (name, type) := by
  have hbi : ∀ type ∈ Builtin.scalarNames, (builtinCategory? (baseKind type)).isSome := by decide
  obtain ⟨category, hcat⟩ := Option.isSome_iff_exists.mp (hbi type h)
  exact .property (by simp [categoryOf, hcat]) (.inl h)

lemma accountsAll_queryArguments (har : cat.AccountsAll decl args)
    (hord : ∀ given, ordering = some given → ∀ name, cat.Accounts decl (name, given))
    (hfi : ∀ given, filter = some given → ∀ name, cat.Accounts decl (name, given)) :
    cat.AccountsAll decl (queryArguments args isList ordering filter) := by
  intro arg harg
  rcases mem_queryArguments harg with h | h | ⟨given, hg, rfl⟩ | ⟨given, hg, rfl⟩
  · exact har arg h
  · have hb : arg.type.base = "Int" := by
      rcases mem_pair.mp h with rfl | rfl <;> rfl
    rw [hb]
    exact accounts_builtin (by decide) _
  · exact hord given hg _
  · exact hfi given hg _

/-! ## Bodies -/

lemma accountsField_self (cat : Catalog) {ms : List FieldDef} (isInput : Bool)
    (h : fd ∈ ms) : cat.AccountsField (valuesOf ms isInput fd.name) isInput fd := by
  have hm {value : Name × Name} (hv : value ∈ fd.inputValues isInput) :
      value ∈ valuesOf ms isInput fd.name :=
    mem_flatMap.mpr ⟨fd, mem_filter.mpr ⟨h, by simp⟩, hv⟩
  refine ⟨fun arg harg => .declared (hm ?_), fun hin => .declared (hm ?_)⟩
  · exact mem_append_right _ (mem_map_of_mem harg)
  · exact mem_append_left _ (by simp [hin])

lemma AccountsBody.of_mem_inputSites {decl : Name → List (Name × Name)}
    (h : cat.AccountsBody decl body)
    {holder : Name} {site : InputSite} (hsi : site ∈ body.inputSites holder) :
    site.holder = holder ∧ cat.Accounts (decl site.member) (site.value, site.type) := by
  obtain ⟨fd, hf, hsi⟩ := mem_flatMap.mp hsi
  obtain ⟨value, hv, rfl⟩ := mem_map.mp hsi
  refine ⟨rfl, ?_⟩
  rcases mem_append.mp hv with hv | hv
  · split at hv
    next hin =>
      rw [mem_singleton.mp hv]
      exact (h fd hf).type hin
    · simp at hv
  · obtain ⟨arg, harg, rfl⟩ := mem_map.mp hv
    exact (h fd hf).arguments arg harg

lemma accountsBody_of_arguments {decl : Name → List (Name × Name)} (hin : body.isInput = false)
    (h : ∀ fd ∈ body.fields, cat.AccountsAll (decl fd.name) fd.arguments) :
    cat.AccountsBody decl body := by
  intro fd hf
  rw [hin]
  exact ⟨h fd hf, fun h => absurd h (by simp)⟩

lemma accountsBody_inputType {decl : Name → List (Name × Name)}
    (h : ∀ vals, cat.AccountsAll vals args) : cat.AccountsBody decl (inputType name args).body := by
  refine forall_mem_map.mpr fun m hm => ?_
  exact ⟨fun arg harg => by simp [ArgumentDef.toField] at harg, fun _ => h _ m hm⟩

/-! ## Properties -/

lemma property_of_kind (h : (fd.describe types).kind = .property) :
    (categoryOf types fd.type.base).isSome := by
  unfold describe at h
  split at h
  next category hcat => simp [hcat]
  · unfold kindOf at h
    split at h <;> cases h

/-- A type with a category is declared or built in. -/
lemma declared_or_builtin (h : (categoryOf types name).isSome) :
    name ∈ types.keys ∨ (builtinCategory? (baseKind name)).isSome := by
  unfold categoryOf at h
  split at h
  next category hcat => exact .inr (by rw [hcat]; rfl)
  · cases hg : types.get? name with
    | none => simp [hg] at h
    | some defn => exact .inl (mem_keys_of_get? hg)

lemma accounts_property (h : (fd.describe cat.types).kind = .property)
    (hm : fd.type.base ∈ cat.memberTypes) (name : Name) :
    cat.Accounts decl (name, (fd.describe cat.types).type) :=
  .property (by simpa using property_of_kind h) (.inr (by simpa using hm))

lemma mem_extensions_of_mem_extensionsOf {extn : TypeExt} (h : extn ∈ cat.extensionsOf type) :
    extn ∈ cat.extensions.flatMap (·.2) := by
  unfold extensionsOf at h
  cases hg : cat.extensions.get? type with
  | none => simp [hg] at h
  | some own => exact mem_flatMap.mpr ⟨_, mem_of_get? hg, by simpa [hg] using h⟩

lemma mem_memberTypes (hv : defn ∈ cat.types.values) (hf : fd ∈ cat.membersOf defn) :
    fd.type.base ∈ cat.memberTypes := by
  refine mem_map_of_mem ?_
  rcases mem_append.mp hf with hf | hf
  · exact mem_append_left _ (mem_flatMap.mpr ⟨defn, hv, hf⟩)
  · obtain ⟨extn, hx, hf⟩ := mem_flatMap.mp hf
    exact mem_append_right _ (mem_flatMap.mpr ⟨extn, mem_extensions_of_mem_extensionsOf hx, hf⟩)

lemma kind_of_isStored (h : info.isStored) : info.kind = .property := by
  simp only [FieldInfo.isStored, Bool.and_eq_true, decide_eq_true_eq] at h
  exact h.1.1.1

/-- The types that a property is compared with: its own, or the comparison of distances. -/
lemma accountsAll_propertyFilters (h : ∀ name, cat.Accounts decl (name, info.type)) :
    cat.AccountsAll decl (propertyFilters cat.settings info) := by
  intro arg harg
  unfold propertyFilters at harg
  split at harg
  · simp at harg
  · rcases mem_cons.mp harg with rfl | harg
    · simpa using h _
    · obtain ⟨op, hop, rfl⟩ := mem_map.mp harg
      have hap := (mem_filter.mp hop).2
      unfold FilterOp.operand
      split
      next hdi =>
        have hen : cat.settings.enablesSpatial .point := by
          simp only [FilterOp.applies, hdi, Bool.not_true, Bool.false_or, Bool.and_eq_true] at hap
          exact hap.2
        refine .known (.inr (mem_keys_generated_of_stored ⟨pointDistanceType,
          mem_append_right _ ?_, rfl⟩))
        refine mem_flatMap.mpr ⟨.point, mem_filter.mpr ⟨by decide, hen⟩, ?_⟩
        exact mem_append_right _ mem_cons_self
      · split
        · simpa using h _
        · split
          · simpa using h _
          · exact h _

lemma accountsAll_relationFilters {fd filter : Name}
    (h : ∀ name, cat.Accounts decl (name, filter)) :
    cat.AccountsAll decl (relationFilters fd filter isList) := by
  intro arg harg
  rcases mem_cons.mp harg with rfl | harg
  · exact h _
  · obtain ⟨op, -, rfl⟩ := mem_map.mp harg
    split
    · simpa using h _
    · exact h _

lemma accountsAll_logicalFilters {filter : Name} (h : ∀ name, cat.Accounts decl (name, filter)) :
    cat.AccountsAll decl (logicalFilters filter) := by
  intro arg harg
  obtain ⟨name, -, rfl⟩ := mem_map.mp harg
  simpa using h _

lemma accountsAll_nil : cat.AccountsAll decl [] := fun arg h => by simp at h

lemma AccountsAll.append {fst snd : List ArgumentDef} (h1 : cat.AccountsAll decl fst)
    (h2 : cat.AccountsAll decl snd) : cat.AccountsAll decl (fst ++ snd) := fun arg h =>
  (mem_append.mp h).elim (h1 arg) (h2 arg)

/-! ## Generated types -/

lemma accounts_of_registers (hs : cat.IsSorted) (h : cat.Registers defn)
    (name : Name) : cat.Accounts decl (name, defn.name) :=
  .known (.inr (mem_keys_generated_of_registers hs h))

lemma accounts_of_provides (hs : cat.IsSorted) (input : NodeInput) (h : cat.provides type input)
    (name : Name) : cat.Accounts decl (name, input.name type) := by
  obtain ⟨defn, hreg, hn⟩ := registers_of_provides hs h
  exact hn ▸ accounts_of_registers hs hreg name

lemma accounts_ordering? (hs : cat.IsSorted) {given : Name} (haug : cat.augments .query type)
    (h : cat.ordering? type = some given) (name : Name) : cat.Accounts decl (name, given) := by
  unfold ordering? at h
  split at h
  next hord =>
    rw [← Option.some.inj h]
    exact accounts_of_provides hs .ordering (by rw [provides, haug, hord]; rfl) name
  · cases h

end Accounts

end Catalog

end GraphApi
