import GraphApi.Proofs.Api.Kept

/-!
# Retargeted definitions

A retargeted reference to an enabled temporal or spatial kind leads to the generated type that fits
the place. `Definition.IsRetargeted` says so of a whole definition. Retargeting makes it hold
(`Definition.isRetargeted_retarget`) and changes nothing where it holds
(`Definition.retarget_of_isRetargeted`).
-/

namespace GraphApi

open List ArgumentDef TypeBody Option

variable {cfg : Settings} {kind : Name} {type : TypeRef} {typeName : Name → Name} {body : TypeBody}

/-! ## Kinds -/

lemma enabledKind?_eq_some {type : Name} :
    enabledKind? cfg type = some kind ↔ baseKind type = kind ∧
    ((∃ temporal : TemporalKind, temporal.word = kind ∧ cfg.enablesTemporal temporal) ∨
      ∃ spatial : SpatialKind, spatial.word = kind ∧ cfg.enablesSpatial spatial) := by
  have hte (temporal : TemporalKind) : TemporalKind.ofWord? temporal.word = some temporal := by
    cases temporal <;> decide
  have hsp (spatial : SpatialKind) : TemporalKind.ofWord? spatial.word = none ∧
      SpatialKind.ofWord? spatial.word = some spatial := by
    cases spatial
    decide
  constructor
  · intro h
    unfold enabledKind? at h
    dsimp only at h
    split at h
    next temporal hw =>
      split at h
      next hen =>
        have hfo : temporal.word = baseKind type := by simpa using find?_some hw
        exact ⟨some.inj h, .inl ⟨temporal, hfo.trans (some.inj h), hen⟩⟩
      · cases h
    · split at h
      next spatial hw =>
        split at h
        next hen =>
          have hfo : spatial.word = baseKind type := by simpa using find?_some hw
          exact ⟨some.inj h, .inr ⟨spatial, hfo.trans (some.inj h), hen⟩⟩
        · cases h
      · cases h
  · rintro ⟨hb, ⟨temporal, rfl, hen⟩ | ⟨spatial, rfl, hen⟩⟩
    · simp [enabledKind?, hb, hte, hen]
    · simp [enabledKind?, hb, hsp, hen]

lemma enabledKind?_stored {type : Name} (h : enabledKind? cfg type = some kind) :
    enabledKind? cfg (storedTypeName kind) = some kind ∧ enabledKind? cfg (storedInputName kind) =
      some kind := by
  have hst {kind : Name} (hki : (∃ temporal : TemporalKind, temporal.word = kind) ∨
      ∃ spatial : SpatialKind, spatial.word = kind) :
      baseKind (storedTypeName kind) = kind ∧ baseKind (storedInputName kind) = kind := by
    rcases hki with ⟨temporal, rfl⟩ | ⟨spatial, rfl⟩
    · cases temporal <;> decide
    · cases spatial
      decide
  obtain ⟨-, hk⟩ := enabledKind?_eq_some.mp h
  have hb := hst (hk.imp (fun ⟨temporal, hw, _⟩ => ⟨temporal, hw⟩) fun ⟨spatial, hw, _⟩ =>
    ⟨spatial, hw⟩)
  exact ⟨enabledKind?_eq_some.mpr ⟨hb.1, hk⟩, enabledKind?_eq_some.mpr ⟨hb.2, hk⟩⟩

/-! ## References -/

/-- A reference that leads to the generated type of its kind, if it has an enabled one. -/
def TypeRef.Targets (cfg : Settings) (typeName : Name → Name) (type : TypeRef) : Prop :=
  ∀ kind, enabledKind? cfg type.base = some kind → type.base = typeName kind

lemma base_retargetRef_of_enabled (h : enabledKind? cfg type.base = some kind)
    (typeName : Name → Name) : (retargetRef cfg typeName type).base = typeName kind := by
  simp only [retargetRef, h]
  split
  next heq => exact heq.symm
  · exact Wrappers.base_wrap _ _

lemma retargetRef_of_disabled (h : enabledKind? cfg type.base = none)
    (typeName : Name → Name) : retargetRef cfg typeName type = type := by
  simp only [retargetRef, h]

lemma TypeRef.targets_retargetRef (cfg : Settings)
    (htn : typeName = storedTypeName ∨ typeName = storedInputName) (type : TypeRef) :
    (retargetRef cfg typeName type).Targets cfg typeName := by
  intro kind hk
  cases hb : enabledKind? cfg type.base with
  | none =>
    rw [retargetRef_of_disabled hb, hb] at hk
    cases hk
  | some base =>
    have hst : enabledKind? cfg (typeName base) = some base := by
      rcases htn with rfl | rfl
      · exact (enabledKind?_stored hb).1
      · exact (enabledKind?_stored hb).2
    rw [base_retargetRef_of_enabled hb, hst] at hk
    rw [base_retargetRef_of_enabled hb, some.inj hk]

lemma TypeRef.Targets.retargetRef_eq (h : type.Targets cfg typeName) :
    retargetRef cfg typeName type = type := by
  unfold retargetRef
  split
  next kind hk => rw [if_pos (h kind hk).symm]
  · rfl

/-! ## Members -/

/-- Whether a member of a body is a field, which returns values. The other members of an input type
take them. -/
def TypeBody.holdsField (body : TypeBody) (field : FieldDef) : Bool :=
  !body.isInput || field.isOperation

/-- A member whose references lead to the generated types. A field that is left out of the API keeps
its own type. -/
structure FieldDef.IsRetargeted (cfg : Settings) (isField : Bool) (field : FieldDef) : Prop where
  output : isField → field.marked .ignore = false → field.type.Targets cfg storedTypeName
  input : isField = false → field.type.Targets cfg storedInputName
  arguments : ∀ arg ∈ field.arguments, arg.type.Targets cfg storedInputName

def Definition.IsRetargeted (cfg : Settings) : Definition → Prop
  | .type defn => ∀ field ∈ defn.fields, field.IsRetargeted cfg (defn.body.holdsField field)
  | .typeExt extn => ∀ field ∈ extn.fields, field.IsRetargeted cfg (extn.body.holdsField field)
  | .directive defn => ∀ arg ∈ defn.arguments, arg.type.Targets cfg storedInputName
  | .operation _ | .fragment _ | .schema _ | .schemaExt .. => True

lemma ArgumentDef.targets_retarget (cfg : Settings) (arg : ArgumentDef) :
    (arg.retarget cfg).type.Targets cfg storedInputName :=
  TypeRef.targets_retargetRef cfg (.inr rfl) arg.type

lemma ArgumentDef.map_retarget_eq {args : List ArgumentDef}
    (h : ∀ arg ∈ args, arg.type.Targets cfg storedInputName) :
    args.map (·.retarget cfg) = args := by
  refine (map_congr_left fun arg harg => ?_).trans (map_id _)
  rw [retarget, (h arg harg).retargetRef_eq]
  rfl

/-- What retargeting does to a member: fields lead to output types, unless they are left out of the
API, and all else leads to input types. -/
lemma FieldDef.retargetIn_eq (cfg : Settings) (body : TypeBody) (fd : FieldDef) :
    fd.retargetIn cfg body.kind = { fd with
      type := if body.holdsField fd then
          if fd.marked .ignore then fd.type else retargetRef cfg storedTypeName fd.type
        else retargetRef cfg storedInputName fd.type
      arguments := fd.arguments.map (·.retarget cfg) } := by
  unfold retargetIn holdsField isInput
  by_cases hk : body.kind = .input
  · cases hop : fd.isOperation <;> simp [hk, hop, retargetInput, retarget]
  · simp [hk, retarget]

lemma FieldDef.isRetargeted_retargetIn (cfg : Settings) (body : TypeBody) (fd : FieldDef) :
    (fd.retargetIn cfg body.kind).IsRetargeted cfg
      (body.holdsField (fd.retargetIn cfg body.kind)) := by
  have hho : body.holdsField (fd.retargetIn cfg body.kind) = body.holdsField fd := by
    rw [retargetIn_eq]
    rfl
  rw [hho, retargetIn_eq]
  refine ⟨fun hf hig => ?_, fun hin => ?_, fun arg harg => ?_⟩
  · have hmk : fd.marked .ignore = false := hig
    simp only [hf, if_true, hmk, Bool.false_eq_true, if_false]
    exact TypeRef.targets_retargetRef cfg (.inl rfl) fd.type
  · simp only [hin, Bool.false_eq_true, if_false]
    exact TypeRef.targets_retargetRef cfg (.inr rfl) fd.type
  · obtain ⟨pre, -, rfl⟩ := mem_map.mp harg
    exact pre.targets_retarget cfg

lemma FieldDef.IsRetargeted.retargetIn_eq_self {fd : FieldDef}
    (h : fd.IsRetargeted cfg (body.holdsField fd)) : fd.retargetIn cfg body.kind = fd := by
  rw [retargetIn_eq, map_retarget_eq h.arguments]
  cases hf : body.holdsField fd with
  | false => rw [(h.input hf).retargetRef_eq, if_neg (by simp)]
  | true =>
    cases hig : fd.marked .ignore with
    | true => rfl
    | false => rw [(h.output hf hig).retargetRef_eq, if_pos rfl, if_neg (by simp)]

/-! ## Definitions -/

/-- Retargeting makes every member of a body lead to the types that fit its place. -/
theorem TypeBody.isRetargeted_retarget (cfg : Settings) (body : TypeBody) :
    ∀ fd ∈ (body.retarget cfg).fields, fd.IsRetargeted cfg ((body.retarget cfg).holdsField fd) := by
  intro fd hf
  rw [fields_retarget] at hf
  obtain ⟨pre, -, rfl⟩ := mem_map.mp hf
  have hin : (body.retarget cfg).isInput = body.isInput := by
    rw [isInput, isInput, kind_retarget]
  have hown := FieldDef.isRetargeted_retargetIn cfg body pre
  rwa [holdsField, ← hin] at hown

/-- A body whose members lead to the types that fit stays as it is. -/
theorem TypeBody.retarget_of_isRetargeted
    (h : ∀ fd ∈ body.fields, fd.IsRetargeted cfg (body.holdsField fd)) :
    body.retarget cfg = body := by
  have hfs : body.fields.map (·.retargetIn cfg body.kind) = body.fields :=
    (map_congr_left fun fd hf => (h fd hf).retargetIn_eq_self).trans (map_id _)
  cases body with
  | object interfaces fields =>
    exact congrArg (object interfaces) hfs
  | interface interfaces fields =>
    exact congrArg (interface interfaces) hfs
  | input fields => exact congrArg input hfs
  | scalar | union | enum => rfl

/-- Retargeting makes a definition retargeted. -/
theorem Definition.isRetargeted_retarget (cfg : Settings) (defn : Definition) :
    (defn.retarget cfg).IsRetargeted cfg := by
  cases defn with
  | type defn => exact TypeBody.isRetargeted_retarget cfg defn.body
  | typeExt extn => exact TypeBody.isRetargeted_retarget cfg extn.body
  | directive defn =>
    intro arg harg
    obtain ⟨pre, -, rfl⟩ := mem_map.mp harg
    exact pre.targets_retarget cfg
  | operation | fragment | schema | schemaExt => trivial

/-- Retargeting is idempotent: a retargeted definition stays. -/
theorem Definition.retarget_of_isRetargeted {defn : Definition} (h : defn.IsRetargeted cfg) :
    defn.retarget cfg = defn := by
  cases defn with
  | type defn => rw [retarget, TypeBody.retarget_of_isRetargeted h]
  | typeExt extn => rw [retarget, TypeBody.retarget_of_isRetargeted h]
  | directive defn => rw [retarget, map_retarget_eq h]
  | operation | fragment | schema | schemaExt => rfl

end GraphApi
