import GraphApi.Proofs.Api.KeyChoice
import GraphApi.Proofs.Api.Registration

/-!
# Two ways to take the arguments of mutations

The mutations of a node type take flat arguments, or input objects in experimental mode. Which of
them are built depends on the same keys. Main statement: `modesAgree_of_nodup`.
-/

namespace GraphApi

open List FieldInfo

variable {infos : List FieldInfo} {info : FieldInfo} {key : PrimaryKey}
  {cfg : Settings} {type : Name} {action : NodeAction}

/-- Whether a mutation of a node type is built, in one of the modes. -/
def Builds (experimental : Bool) (cfg : Settings) (type : Name) (infos : List FieldInfo)
    (action : NodeAction) : Prop :=
  action.word ++ type ∈ (if experimental
    then (inputMutations cfg type infos (primaryKey infos)).fields
    else flatMutations cfg type infos (primaryKey infos)).map (·.name)

instance (experimental : Bool) : Decidable (Builds experimental cfg type infos action) :=
  inferInstanceAs (Decidable (_ ∈ _))

/-- The names of the members of an input type that the mutations of experimental mode take. -/
def inputNames (cfg : Settings) (type : Name) (infos : List FieldInfo) (input : Name) :
    Option (List Name) :=
  ((inputMutations cfg type infos (primaryKey infos)).types.find? (·.name == input)).map
    (·.fields.map (·.name))

lemma builds_flat_iff : Builds false cfg type infos action ↔ match action with
    | .create => True
    | .update => ∃ key, primaryKey infos = some key ∧ ∃ info ∈ infos, info.isStored ∧
      info.name ≠ key.name
    | .delete | .merge => (primaryKey infos).isSome := by
  unfold Builds flatMutations
  cases primaryKey infos with
  | none => cases action <;> simp [nodeMutation]
  | some key =>
    have hle : (updateArguments infos key).length > 1 ↔
        ∃ info ∈ infos, info.isStored ∧ info.name ≠ key.name := by
      simp [updateArguments, length_pos_iff_exists_mem]
    cases action <;> simp [nodeMutation, hle]

lemma builds_input_iff : Builds true cfg type infos action ↔ match action with
    | .create => ∃ info ∈ infos, info.isStored
    | .update => (primaryKey infos).isSome ∧ ∃ info ∈ infos, info.isStored ∧
      ∀ other ∈ uniqueKeyFields infos (primaryKey infos), other.name ≠ info.name
    | .delete | .merge => (primaryKey infos).isSome := by
  have hcr (key : Option PrimaryKey) : createArguments infos key = [] ↔
      ¬ ∃ info ∈ infos, info.isStored := by
    simp [createArguments]
  unfold Builds inputMutations
  cases hk : primaryKey infos with
  | none => cases action <;> simp [nodeMutation, hcr]
  | some key =>
    -- the primary key is stored, so a mutation that creates takes it at least
    obtain ⟨hm, hst⟩ := mem_of_mem_keyFields (mem_keyFields_of_primaryKey hk)
    have hso : ∃ info ∈ infos, info.isStored := ⟨_, hm, hst⟩
    cases action <;> simp [nodeMutation, hcr, hso, Catalog.uniqueKeyFields_isEmpty]

lemma FieldInfo.isMarkedKey_iff : info.isMarkedKey ↔ info.keyRank < 3 := by
  unfold isMarkedKey keyRank
  cases hi : info.field.marked .id <;> cases hu : info.field.marked .unique <;> cases hx :
    info.field.marked .index <;>
    cases isIdType info.type <;> cases info.isRequired <;> simp [Mark.keys, hi, hu, hx]

/-- A marked field comes before all unmarked ones, so the primary key is marked if any key field
is. -/
lemma mem_uniqueKeyFields_of_primaryKey (h : primaryKey infos = some key) :
    key.info ∈ uniqueKeyFields infos (primaryKey infos) := by
  obtain ⟨-, pre, after, heq, hb, ha⟩ := least_of_primaryKey h
  have hle (other : FieldInfo) (ho : other ∈ keyFields infos) :
      key.info.keyRank ≤ other.keyRank := by
    rw [heq, mem_append, mem_cons] at ho
    obtain ho | rfl | ho := ho
    · exact Nat.le_of_lt (hb _ ho)
    · exact Nat.le_refl _
    · exact ha _ ho
  rw [h, uniqueKeyFields]
  split
  · simp
  · next hma =>
    obtain ⟨other, ho⟩ := exists_mem_of_ne_nil _ (mt isEmpty_iff.mpr hma)
    obtain ⟨ho, hm⟩ := mem_filter.mp ho
    refine mem_filter.mpr ⟨mem_keyFields_of_primaryKey h, isMarkedKey_iff.mpr ?_⟩
    exact Nat.lt_of_le_of_lt (hle other ho) (isMarkedKey_iff.mp hm)

def changeableFields (infos : List FieldInfo) : List FieldInfo :=
  infos.filter fun info =>
    info.isStored && !((uniqueKeyFields infos (primaryKey infos)).map FieldInfo.name).contains
      info.name

lemma mem_changeableFields : info ∈ changeableFields infos ↔ info ∈ infos ∧ info.isStored ∧
    ∀ other ∈ uniqueKeyFields infos (primaryKey infos), other.name ≠ info.name := by
  simp [changeableFields]

lemma types_inputMutations (h : primaryKey infos = some key) :
    (inputMutations cfg type infos (primaryKey infos)).types =
      [inputType (createName type) (createArguments infos (primaryKey infos)),
        whereInput cfg type (uniqueKeyFields infos (primaryKey infos)),
        keysInput type (uniqueKeyFields infos (primaryKey infos))] ++
      if (changeableFields infos).isEmpty then []
      else [inputType (updateName type) ((changeableFields infos).map optionalArgument)] := by
  obtain ⟨hm, hst⟩ := mem_of_mem_keyFields (mem_keyFields_of_primaryKey h)
  have hcr : createArguments infos (some key) ≠ [] := by
    simpa [createArguments] using ⟨_, hm, hst⟩
  have hky : uniqueKeyFields infos (some key) ≠ [] :=
    h ▸ ne_nil_of_mem (mem_uniqueKeyFields_of_primaryKey h)
  simp [inputMutations, changeableFields, h, hcr, hky]

lemma inputNames_keysName (h : primaryKey infos = some key) :
    inputNames cfg type infos (keysName type) =
      some ((uniqueKeyFields infos (primaryKey infos)).map name) := by
  simp [inputNames, types_inputMutations h, keysInput, whereInput, filterType, keysName,
    whereName, createName, Function.comp_def]

lemma inputNames_updateName {update : List Name}
    (h : inputNames cfg type infos (updateName type) = some update) :
    (primaryKey infos).isSome ∧ update = (changeableFields infos).map name := by
  cases hk : primaryKey infos with
  | none =>
    cases hc : (createArguments infos none).isEmpty <;>
      simp [inputNames, inputMutations, hk, hc, createName, updateName] at h
  | some key =>
    refine ⟨rfl, ?_⟩
    rw [inputNames, types_inputMutations hk] at h
    cases hr : (changeableFields infos).isEmpty <;>
      simp [hr, keysInput, whereInput, filterType, keysName, whereName, createName, updateName,
        optionalArgument, Function.comp_def] at h
    exact h.symm

/-- A stored property is a key or not, and distinct names tell the two apart. -/
lemma perm_changeableFields (hnd : (infos.map name).Nodup) :
    (uniqueKeyFields infos (primaryKey infos) ++ changeableFields infos).Perm
      (infos.filter isStored) := by
  have hinj := inj_on_of_nodup_map hnd
  refine (perm_ext_iff_of_nodup ?_ (hnd.of_map.filter _)).mpr fun info => ?_
  · exact (nodup_names_uniqueKeyFields hnd _).of_map.append (hnd.of_map.filter _) fun info hm hc =>
      (mem_changeableFields.mp hc).2.2 info hm rfl
  · rw [mem_append, mem_filter]
    constructor
    · rintro (h | h)
      · exact mem_of_mem_uniqueKeyFields h
      · obtain ⟨hm, hst, -⟩ := mem_changeableFields.mp h
        exact ⟨hm, hst⟩
    · rintro ⟨hm, hst⟩
      by_cases hk : ∀ other ∈ uniqueKeyFields infos (primaryKey infos), other.name ≠ info.name
      · exact .inr (mem_changeableFields.mpr ⟨hm, hst, hk⟩)
      · push Not at hk
        obtain ⟨other, ho, heq⟩ := hk
        obtain rfl := hinj (mem_of_mem_uniqueKeyFields ho).1 hm heq
        exact .inl ho

/-- Which mutations the two modes build, and by which properties. -/
structure ModesAgree (cfg : Settings) (type : Name) (infos : List FieldInfo) : Prop where
  flat : ∀ action, Builds false cfg type infos action ↔ match action with
    | .create => True
    | .update => ∃ key, primaryKey infos = some key ∧ ∃ info ∈ infos, info.isStored ∧
        info ≠ key.info
    | .delete | .merge => (primaryKey infos).isSome
  input : ∀ action, Builds true cfg type infos action ↔ match action with
    | .create => ∃ info ∈ infos, info.isStored
    | .update => (primaryKey infos).isSome ∧
      ∃ info ∈ infos, info.isStored ∧ info ∉ uniqueKeyFields infos (primaryKey infos)
    | .delete | .merge => (primaryKey infos).isSome
  both : (primaryKey infos).isSome → ∀ action ≠ .update, ∀ mode, Builds mode cfg type infos action
  update : Builds true cfg type infos .update → Builds false cfg type infos .update
  key : ∀ key, primaryKey infos = some key → key.info ∈ uniqueKeyFields infos (primaryKey infos)
  /-- With an input for the properties to change, each stored property is in it or in the input for keys, and in one only. -/
  divided : ∀ update, inputNames cfg type infos (updateName type) = some update →
    ∃ keys, inputNames cfg type infos (keysName type) = some keys ∧
      (keys ++ update).Perm ((infos.filter isStored).map FieldInfo.name)

/-- Both modes build the same mutations if there is a key, up to one that changes only other
keys. -/
theorem modesAgree_of_nodup (cfg : Settings) (type : Name) (infos : List FieldInfo)
    (hnd : (infos.map FieldInfo.name).Nodup) : ModesAgree cfg type infos := by
  have hinj := inj_on_of_nodup_map hnd
  refine ⟨fun action => builds_flat_iff.trans ?_, fun action => builds_input_iff.trans ?_, fun hso action hne mode => ?_,
    fun hup => ?_, fun key => mem_uniqueKeyFields_of_primaryKey, fun update h => ?_⟩
  · cases action <;> try exact Iff.rfl
    refine exists_congr fun key => and_congr_right fun hk => exists_congr fun info => and_congr_right fun hm =>
      and_congr_right fun _ => not_congr ⟨fun heq => ?_, fun heq => congrArg name heq⟩
    exact hinj hm (mem_of_mem_keyFields (mem_keyFields_of_primaryKey hk)).1 heq
  · cases action <;> try exact Iff.rfl
    refine and_congr_right fun _ => exists_congr fun info => and_congr_right fun hm => and_congr_right fun _ =>
      ⟨fun h hmem => h info hmem rfl, fun h other ho heq => h ?_⟩
    exact hinj (mem_of_mem_uniqueKeyFields ho).1 hm heq ▸ ho
  · obtain ⟨key, hk⟩ := Option.isSome_iff_exists.mp hso
    have hst := mem_of_mem_keyFields (mem_keyFields_of_primaryKey hk)
    cases mode
    · cases action <;> simp_all [builds_flat_iff]
    · cases action <;> simp_all only [builds_input_iff, Option.isSome_some, ne_eq, not_true_eq_false]
      exact ⟨_, hst⟩
  · obtain ⟨hso, info, hm, hst, hot⟩ := builds_input_iff.mp hup
    obtain ⟨key, hk⟩ := Option.isSome_iff_exists.mp hso
    have hne : key.name ≠ info.name := hot _ (mem_uniqueKeyFields_of_primaryKey hk)
    exact builds_flat_iff.mpr ⟨key, hk, info, hm, hst, hne.symm⟩
  · obtain ⟨hso, rfl⟩ := inputNames_updateName h
    obtain ⟨key, hk⟩ := Option.isSome_iff_exists.mp hso
    exact ⟨_, inputNames_keysName hk, by simpa using (perm_changeableFields hnd).map name⟩

/-- The properties of books: an identifier and a number that are marked as keys, and a title. -/
def bookInfos : List FieldInfo :=
  let property (name type : Name) (marks : List Mark) : FieldInfo :=
    { field := { name, type := .plain type, directives := marks.map fun mark => { name := mark.word } }
      kind := .property, category := some .string }
  [property "id" "ID" [.id], property "isbn" "String" [.unique], property "title" "String" []]

/-- Books with two keys, so that an update changes the title only. -/
theorem modesAgree_books : ModesAgree {} "Book" bookInfos ∧
    inputNames {} "Book" bookInfos (updateName "Book") = some ["title"] :=
  ⟨modesAgree_of_nodup _ _ _ (by decide), by decide⟩

end GraphApi
