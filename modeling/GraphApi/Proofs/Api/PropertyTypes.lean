import GraphApi.Proofs.Api.Members

/-!
# The types by which properties are given

The arguments for a stored property have its declared type, without markers where they update or
query a node. They are built from wrappers, so lists of lists become one list
(`TypeRef.flat_eq_self_iff`). Main statements: `wrappers_round_trip`,
`Document.keepsLists_of_augment`.
-/

namespace GraphApi

namespace TypeRef

def lists : TypeRef → Nat
  | .named .. => 0
  | .list item _ => item.lists + 1

def rename (change : Name → Name) : TypeRef → TypeRef
  | .named name required => .named (change name) required
  | .list item required => .list (item.rename change) required

def bare : TypeRef → TypeRef
  | .named name _ => .named name false
  | .list item _ => .list item.bare false

/-- What is rebuilt from the wrappers: the lists become one, which is required if any of them is. -/
def flat (type : TypeRef) : TypeRef := type.wrappers.wrap type.base

variable (change : Name → Name) (type : TypeRef) {args : List ArgumentDef}

@[simp] lemma lists_rename : (type.rename change).lists = type.lists := by
  induction type with
  | named => rfl
  | list item required ih => exact congrArg (· + 1) ih

@[simp] lemma lists_bare : type.bare.lists = type.lists := by
  induction type with
  | named => rfl
  | list item required ih => exact congrArg (· + 1) ih

@[simp] lemma base_rename : (type.rename change).base = change type.base := by
  induction type with
  | named => rfl
  | list item required ih => exact ih

@[simp] lemma base_bare : type.bare.base = type.base := by
  induction type with
  | named => rfl
  | list item required ih => exact ih

@[simp] lemma wrappers_rename : (type.rename change).wrappers = type.wrappers := by
  induction type with
  | named => rfl
  | list item required ih => simp [rename, wrappers, ih]

@[simp] lemma wrappers_bare : type.bare.wrappers = type.wrappers.listOnly := by
  induction type with
  | named => rfl
  | list item required ih => simp [bare, wrappers, ih, Wrappers.listOnly]

/-- Wrappers can express exactly the types with at most one list. -/
theorem flat_eq_self_iff : type.flat = type ↔ type.lists ≤ 1 := by
  cases type with
  | named => simp [flat, wrappers, Wrappers.wrap, base, lists]
  | list item required => cases item <;> simp [flat, wrappers, Wrappers.wrap, base, lists]

/-- A reference stands within another one: it is this one, or it stands within its item. -/
inductive Within (inner : TypeRef) : TypeRef → Prop
  | refl : Within inner inner
  | item {item : TypeRef} (required : Bool) (h : Within inner item) :
    Within inner (.list item required)

lemma within_list_iff {inner item : TypeRef} {required : Bool} :
    inner.Within (.list item required) ↔ inner = .list item required ∨ inner.Within item := by
  constructor
  · rintro (_ | ⟨_, h⟩)
    · exact .inl rfl
    · exact .inr h
  · rintro (rfl | h)
    · exact .refl
    · exact .item _ h

lemma named_within_iff (name : Name) :
    (∃ required, (named name required).Within type) ↔ name = type.base := by
  induction type with
  | named own required =>
    constructor
    · rintro ⟨_, ⟨⟩⟩
      rfl
    · rintro rfl
      exact ⟨required, .refl⟩
  | list item required ih => simpa [within_list_iff, base] using ih

lemma list_within_iff : (∃ item required, (list item required).Within type) ↔
    type.wrappers.list := by
  cases type with
  | named => exact ⟨by rintro ⟨_, _, ⟨⟩⟩, nofun⟩
  | list item required => exact ⟨fun _ => rfl, fun _ => ⟨item, required, .refl⟩⟩

end TypeRef

/-- Wrappers are given back, unless a missing list is marked, and so are the references with at most
one list. -/
theorem wrappers_round_trip :
    (∀ (wrappers : Wrappers) (name : Name), (wrappers.wrap name).base = name ∧
      ((wrappers.wrap name).wrappers = wrappers ↔ (wrappers.requiredList → wrappers.list))) ∧
    ∀ type : TypeRef, (type.wrappers.wrap type.base = type ↔ type.lists ≤ 1) ∧
      (∀ name, (∃ required, (TypeRef.named name required).Within type) ↔ name = type.base) ∧
      ((∃ item required, (TypeRef.list item required).Within type) ↔ type.wrappers.list) := by
  refine ⟨fun wrappers name => ⟨wrappers.base_wrap name, ?_⟩,
    fun type => ⟨type.flat_eq_self_iff, type.named_within_iff, type.list_within_iff⟩⟩
  rcases wrappers with ⟨_ | _, _, _ | _⟩ <;> simp [Wrappers.wrap, TypeRef.wrappers]

/-! ## Retargeted references -/

variable {cfg : Settings} {typeName : Name → Name}

/-- The name that stands for a named type: that of its kind, if it has an enabled one. -/
def retargetName (cfg : Settings) (typeName : Name → Name) (name : Name) : Name :=
  ((enabledKind? cfg name).map typeName).getD name

lemma Wrappers.wrap_wrappers_wrap (wrappers : Wrappers) (first second : Name) :
    (wrappers.wrap first).wrappers.wrap second = wrappers.wrap second := by
  cases h : wrappers.list <;> simp [wrap, h, TypeRef.wrappers]

lemma retargetRef_cases (type : TypeRef) :
    (retargetRef cfg typeName type = type ∧ retargetName cfg typeName type.base = type.base) ∨
      retargetRef cfg typeName type = (type.rename (retargetName cfg typeName)).flat := by
  unfold retargetRef
  split
  next kind hkind =>
    have hname : retargetName cfg typeName type.base = typeName kind := by
      simp [retargetName, hkind]
    split
    next heq => exact .inl ⟨rfl, hname.trans heq⟩
    · exact .inr (by simp [TypeRef.flat, hname])
  next hkind => exact .inl ⟨rfl, by simp [retargetName, hkind]⟩

lemma retargetRef_wrap (wrappers : Wrappers) (name : Name) :
    retargetRef cfg typeName (wrappers.wrap name) =
      wrappers.wrap (retargetName cfg typeName name) := by
  rcases retargetRef_cases (wrappers.wrap name) with ⟨heq, hname⟩ | heq
  · rw [Wrappers.base_wrap] at hname
    rw [heq, hname]
  · simp [heq, TypeRef.flat, Wrappers.wrap_wrappers_wrap]

/-! ## Arguments for properties -/

/-- Values of the name are taken, with the type that the retargeted argument has. -/
def Takes (cfg : Settings) (args : List ArgumentDef) (name : Name) (type : TypeRef) : Prop :=
  ∃ arg ∈ args, arg.name = name ∧ (arg.retarget cfg).type = type

def FieldDef.inputRef (cfg : Settings) (field : FieldDef) : TypeRef :=
  field.type.rename (retargetName cfg storedInputName)

namespace Catalog

open List FieldDef

variable {cat : Catalog} {owner : TypeDef} {field : FieldDef}

/-- Whether the field is an identifier with the name of the primary key, which can be generated. -/
def generatesKey (cat : Catalog) (owner : TypeDef) (field : FieldDef) : Bool :=
  (primaryKey (cat.fieldInfos owner.name)).any fun key => field.name = key.name &&
    isIdType field.type.base

def createdType (cat : Catalog) (owner : TypeDef) (field : FieldDef) : TypeRef :=
  if cat.generatesKey owner field then .plain field.type.base
    else (field.inputRef cat.settings).flat

/-- The arguments for a stored property of a node type, where the node can be created, updated or
queried. -/
structure KeepsLists (cat : Catalog) (owner : TypeDef) (field : FieldDef) : Prop where
  created : cat.settings.experimental = false → ∃ args,
    nodeMutation cat.settings .create owner.name args ∈ cat.nodeMutations owner.name ∧
      Takes cat.settings args field.name (cat.createdType owner field)
  createdInput : let infos := cat.fieldInfos owner.name
    ∃ defn ∈ (inputMutations cat.settings owner.name infos (primaryKey infos)).types,
      defn.name = createName owner.name ∧
      ∃ member ∈ (defn.retarget cat.settings).fields, member.name = field.name ∧
        member.type = cat.createdType owner field
  updated : cat.settings.experimental = false →
    ∀ key, primaryKey (cat.fieldInfos owner.name) = some key → field.name ≠ key.name → ∃ args,
      nodeMutation cat.settings .update owner.name args ∈ cat.nodeMutations owner.name ∧
        Takes cat.settings args field.name (field.inputRef cat.settings).bare.flat
  /-- The primary key is required to update a node. -/
  updatedKey : cat.settings.experimental = false →
    ∀ key, primaryKey (cat.fieldInfos owner.name) = some key →
    ∀ args, nodeMutation cat.settings .update owner.name args ∈ cat.nodeMutations owner.name →
      ∀ arg ∈ args, arg.name = key.name → arg = requiredArgument key.name key.type
  /-- An argument that orders or filters nodes takes the place of a property of its name. -/
  queried : field.name ≠ "filter" → (field.name = "orderBy" → cat.ordering? owner.name = none) →
    Takes cat.settings (nodeQueryField cat owner.name (cat.fieldInfos owner.name)).arguments
      field.name (field.inputRef cat.settings).bare.flat

lemma nodeMutation_inj {first second : NodeAction} {type : Name} {other : List ArgumentDef} :
    nodeMutation cfg first type args = nodeMutation cfg second type other ↔ first = second ∧
      args = other := by
  constructor
  · intro h
    injection h with _ hname harg
    exact ⟨NodeAction.word_inj.mp ((String.append_left_inj _).mp hname), harg⟩
  · rintro ⟨rfl, rfl⟩
    rfl

lemma createType_describe (cat : Catalog) (owner : TypeDef) (field : FieldDef) :
    createType (primaryKey (cat.fieldInfos owner.name)) (field.describe cat.types) =
      if cat.generatesKey owner field then .plain field.type.base else field.type.flat := by
  unfold createType generatesKey
  cases primaryKey (cat.fieldInfos owner.name) <;> simp [TypeRef.flat, FieldInfo.wrappers]

lemma retargetRef_createType (cat : Catalog) (owner : TypeDef) (field : FieldDef) :
    retargetRef cat.settings storedInputName
      (createType (primaryKey (cat.fieldInfos owner.name)) (field.describe cat.types)) =
      cat.createdType owner field := by
  rw [createType_describe, createdType]
  split
  next hgenerates =>
    -- no kind is called like the type of identifiers
    have hid : field.type.base = "ID" := by
      unfold generatesKey at hgenerates
      cases hkey : primaryKey (cat.fieldInfos owner.name) with
      | none => simp [hkey] at hgenerates
      | some key =>
        simp only [hkey, Option.any_some, Bool.and_eq_true, isIdType,
          decide_eq_true_eq] at hgenerates
        exact hgenerates.2
    rw [hid]
    rfl
  · simp [TypeRef.flat, retargetRef_wrap, inputRef]

lemma takes_optionalArgument (h : optionalArgument (field.describe cat.types) ∈ args) :
    Takes cat.settings args field.name (field.inputRef cat.settings).bare.flat := by
  refine ⟨_, h, by simp [optionalArgument], ?_⟩
  simp [optionalArgument, ArgumentDef.retarget, retargetRef_wrap, inputRef, TypeRef.flat,
    FieldInfo.wrappers]

lemma exists_member_inputType {arg : ArgumentDef} (cfg : Settings) (name : Name) (h : arg ∈ args) :
    ∃ member ∈ ((inputType name args).retarget cfg).fields, member.name = arg.name ∧
      member.type = (arg.retarget cfg).type :=
  ⟨_, mem_map_of_mem (mem_map_of_mem h), rfl, rfl⟩

lemma keepsLists (hsorted : cat.IsSorted) (hnode : owner ∈ cat.nodes)
    (hfield : field ∈ cat.membersOf owner) (hstored : (field.describe cat.types).isStored) :
    cat.KeepsLists owner field := by
  have hinfo : field.describe cat.types ∈ cat.fieldInfos owner.name := by
    rw [fieldInfos_eq (get?_of_mem_nodes hsorted hnode)]
    exact mem_map_of_mem hfield
  have hcreate :
      { name := field.name
        type := createType (primaryKey (cat.fieldInfos owner.name)) (field.describe cat.types) } ∈
      createArguments (cat.fieldInfos owner.name) (primaryKey (cat.fieldInfos owner.name)) :=
    mem_map.mpr ⟨_, mem_filter.mpr ⟨hinfo, hstored⟩, by rw [describe_name]⟩
  have htype := retargetRef_createType cat owner field
  have htakes : Takes cat.settings
      (createArguments (cat.fieldInfos owner.name) (primaryKey (cat.fieldInfos owner.name)))
      field.name (cat.createdType owner field) :=
    ⟨_, hcreate, rfl, by rw [ArgumentDef.retarget, htype]⟩
  refine ⟨fun hexp => ⟨_, ?_, htakes⟩, ?_, ?_, ?_, ?_⟩
  · cases hkey : primaryKey (cat.fieldInfos owner.name) <;>
      simp [nodeMutations, hexp, flatMutations, hkey]
  · obtain ⟨member, hmember, hname, hmemberType⟩ :=
      exists_member_inputType cat.settings (createName owner.name) hcreate
    refine ⟨_, mem_types_inputMutations.mpr (.inl ⟨ne_nil_of_mem hcreate, rfl⟩), inputType_name ..,
      member, hmember, hname, ?_⟩
    rw [hmemberType, ArgumentDef.retarget, htype]
  · intro hexp key hkey hne
    have hupdate : optionalArgument (field.describe cat.types) ∈
        ((cat.fieldInfos owner.name).filter fun info =>
          info.isStored && info.name ≠ key.name).map optionalArgument :=
      mem_map_of_mem (mem_filter.mpr ⟨hinfo, by simp [hstored, hne]⟩)
    refine ⟨updateArguments (cat.fieldInfos owner.name) key, ?_,
      takes_optionalArgument (mem_cons_of_mem _ hupdate)⟩
    have hlength : (updateArguments (cat.fieldInfos owner.name) key).length > 1 :=
      Nat.succ_lt_succ (length_pos_of_mem hupdate)
    simp [nodeMutations, hexp, flatMutations, hkey, hlength]
  · intro hexp key hkey args hargs arg harg hname
    obtain ⟨-, rfl⟩ : 1 < (updateArguments (cat.fieldInfos owner.name) key).length ∧
        args = updateArguments _ key := by
      simpa [nodeMutations, hexp, flatMutations, hkey, nodeMutation_inj] using hargs
    rcases mem_cons.mp harg with heq | harg
    · exact heq
    · obtain ⟨info, hother, rfl⟩ := mem_map.mp harg
      exact absurd hname (of_decide_eq_true (Bool.and_eq_true_iff.mp (mem_filter.mp hother).2).2)
  · intro hfilter hordering
    have hquery : optionalArgument (field.describe cat.types) ∈
        nodeQueryArguments (cat.fieldInfos owner.name) :=
      mem_map_of_mem (mem_filter.mpr ⟨hinfo, hstored⟩)
    have hname : (optionalArgument (field.describe cat.types)).name = field.name :=
      describe_name _ _
    -- the argument that orders takes the place of one of its name
    have hpaged : optionalArgument (field.describe cat.types) ∈
        setArgument orderingArgument (cat.ordering? owner.name)
          (addPage (nodeQueryArguments (cat.fieldInfos owner.name))) := by
      refine mem_setArgument_of_mem (mem_addPage.mpr (.inl hquery)) fun given hgiven heq => ?_
      rw [hordering (hname.symm.trans heq)] at hgiven
      cases hgiven
    refine takes_optionalArgument ?_
    simp only [nodeQueryField, queryArguments, if_true]
    exact mem_setArgument_of_mem hpaged fun _ _ heq => hfilter (hname.symm.trans heq)

end Catalog

/-- In an augmented document, the arguments for stored properties have their declared types up to
lists of lists, which are flattened, and so have fields whose temporal or spatial types were
changed. -/
theorem Document.keepsLists_of_augment {settings : Settings} {document augmented : Document}
    (h : (Document.augment settings document).outcome = .ok augmented) :
    (∀ (type : TypeRef) (change : Name → Name), ((type.rename change).flat = type.rename change ↔ type.lists ≤ 1) ∧
      ((type.rename change).bare.flat = (type.rename change).bare ↔ type.lists ≤ 1)) ∧
    ∃ catalog, (Catalog.ofDocument settings document).outcome = .ok catalog ∧
      (∀ owner ∈ catalog.nodes, ∀ field ∈ catalog.membersOf owner, (field.describe catalog.types).isStored →
        catalog.KeepsLists owner field) ∧
      catalog.HasMembers document augmented
        (fun kind declared field => kind ≠ .input → (declared.describe catalog.types).kind ≠ .relationship →
          field.type = declared.type ∨ field.type = (declared.type.rename (retargetName settings storedTypeName)).flat)
        (fun operation field => ∃ offered kind, catalog.Offers operation offered ∧ field = offered.retargetIn settings kind) := by
  refine ⟨fun type change => by simp [TypeRef.flat_eq_self_iff], ?_⟩
  obtain ⟨catalog, hcatalog, haugment⟩ := Run.bind_ok_iff.mp h
  have hsorted := Catalog.isSorted_of_ok hcatalog
  refine ⟨catalog, hcatalog, fun owner howner field hfield =>
    Catalog.keepsLists hsorted howner hfield,
    (Catalog.hasMembers_of_augment hcatalog haugment).imp ?_ fun _ _ => id⟩
  rintro kind declared field ⟨gained, hbecomes, rfl⟩ hkind hother
  rw [FieldDef.retargetIn, if_neg hkind, ← hbecomes.gains.type hother]
  unfold FieldDef.retarget
  split
  · exact .inl rfl
  · exact (retargetRef_cases gained.type).imp_left And.left

/-- Grids with lists of lists, and with a property called like the argument for filters. -/
def gridDocument : Document :=
  [.object "Grid"
    [.idField, { name := "cells", type := .list (.list (.named "Int" true) true) false },
     { name := "filter", type := .named "String" true }]]

/-- A grid, whose cells are a list of lists. -/
theorem grids_keep_lists : ∃ augmented, (gridDocument.augment {}).outcome = .ok augmented ∧
    ∃ catalog, (Catalog.ofDocument {} gridDocument).outcome = .ok catalog ∧
      ∀ owner ∈ catalog.nodes, ∀ field ∈ catalog.membersOf owner, (field.describe catalog.types).isStored →
        catalog.KeepsLists owner field := by
  obtain ⟨augmented, h⟩ := Run.exists_of_isOk
    (by decide +kernel : (gridDocument.augment {}).outcome.isOk)
  obtain ⟨-, catalog, hcatalog, hkeeps, -⟩ := Document.keepsLists_of_augment h
  exact ⟨augmented, h, catalog, hcatalog, hkeeps⟩

/-- The cells of a new grid are a list in place of a list of lists, the identifier is required to
update a grid, and grids cannot be queried by the property that is called like the argument for
filters. -/
theorem grids_lose_lists : ∃ catalog, (Catalog.ofDocument {} gridDocument).outcome = .ok catalog ∧
    ((catalog.nodeMutations "Grid").take 2).map (fun field => field.arguments.map fun arg => (arg.name, arg.type)) =
      [[("id", .plain "ID"), ("cells", .list (.named "Int" true) true), ("filter", .named "String" true)],
        [("id", .named "ID" true), ("cells", .list (.named "Int" false) false), ("filter", .plain "String")]] ∧
    ((nodeQueryField catalog "Grid" (catalog.fieldInfos "Grid")).arguments.filter (·.name == "filter")).map (·.type) =
      [.plain "_GridFilter"] :=
  Run.exists_of_any (by decide +kernel)

end GraphApi
