import GraphApi.Api.Key
import Mathlib.Data.List.Basic

/-!
# The choice of a primary key

The key fields of a node type are put to one test after another, and the rank of a field is the
place of the first test that it passes. Main statement: `primaryKey_choosesLeast`.
-/

namespace GraphApi

open List FieldInfo

variable {infos fields : List FieldInfo} {info : FieldInfo} {key : PrimaryKey}

/-- How far a key field is from being the key: marked ones come first, then identifiers, then
required ones. -/
def FieldInfo.keyRank (info : FieldInfo) : Nat :=
  if info.field.marked .id then 0
  else if info.field.marked .unique then 1
  else if info.field.marked .index then 2
  else if isIdType info.type then if info.isRequired then 3 else 4
  else if info.isRequired then 5
  else 6

def KeyStrategy.ofRank : Nat → KeyStrategy
  | 0 => .id
  | 1 => .unique
  | 2 => .index
  | _ => .inferred

abbrev KeyTest := (FieldInfo → Bool) × KeyStrategy

/-- The tests for a key in their order, each with the strategy that it is part of. -/
def keyTests : List KeyTest :=
  [(fun info => info.field.marked .id, .id), (fun info => info.field.marked .unique, .unique),
   (fun info => info.field.marked .index, .index),
   (fun info => isIdType info.type && info.isRequired, .inferred),
   (fun info => isIdType info.type, .inferred), (isRequired, .inferred), (fun _ => true, .inferred)]

/-- The first field that passes, of the first test that one passes. -/
def firstPassing (fields : List FieldInfo) : List KeyTest → Option PrimaryKey
  | [] => none
  | test :: rest => ((fields.find? test.1).map (⟨·, test.2⟩)).or (firstPassing fields rest)

lemma primaryKey_eq_firstPassing (infos : List FieldInfo) :
    primaryKey infos = firstPassing (keyFields infos) keyTests := by
  have hfi : (keyFields infos).head? = (keyFields infos).find? fun _ => true := by
    cases keyFields infos <;> rfl
  simp only [primaryKey, inferKey, firstPassing, keyTests, firstMarked, hfi, Option.map_or,
    Option.or_none]

lemma findIdx_keyTests (info : FieldInfo) : keyTests.findIdx (·.1 info) = info.keyRank ∧
    (keyTests.find? (·.1 info)).map (·.2) = some (.ofRank info.keyRank) := by
  simp only [keyTests, findIdx_cons, find?_cons, keyRank]
  cases info.field.marked .id <;> cases info.field.marked .unique <;>
    cases info.field.marked .index <;>
    cases isIdType info.type <;> cases info.isRequired <;> exact ⟨rfl, rfl⟩

/-- The field found passes an earlier test than those before it, and no later one than those after
it. -/
lemma least_of_firstPassing {tests : List KeyTest} (h : firstPassing fields tests = some key) :
    (tests.find? (·.1 key.info)).map (·.2) = some key.strategy ∧
      ∃ pre after, fields = pre ++ key.info :: after ∧
        (∀ other ∈ pre, tests.findIdx (·.1 key.info) < tests.findIdx (·.1 other)) ∧
        ∀ other ∈ after, tests.findIdx (·.1 key.info) ≤ tests.findIdx (·.1 other) := by
  induction tests with
  | nil => cases h
  | cons test rest ih =>
    rw [firstPassing] at h
    cases hfn : fields.find? test.1 with
    | some info =>
      rw [hfn] at h
      obtain rfl : ⟨info, test.2⟩ = key := Option.some.inj h
      obtain ⟨hpa, pre, after, rfl, hb⟩ := find?_eq_some_iff_append.mp hfn
      refine ⟨by simp [hpa], pre, after, rfl, fun other ho => ?_, fun other _ => ?_⟩
      · have hfa : test.1 other = false := by simpa using hb other ho
        simp [findIdx_cons, hpa, hfa]
      · simp [findIdx_cons, hpa]
    | none =>
      -- no field passes the first test, so it moves all places by one
      have hfa (other : FieldInfo) (ho : other ∈ fields) : test.1 other = false := by
        simpa using find?_eq_none.mp hfn other ho
      rw [hfn] at h
      obtain ⟨hst, pre, after, rfl, hb, ha⟩ := ih h
      have hkey := hfa key.info (by simp)
      refine ⟨by simpa [find?_cons, hkey] using hst, pre, after, rfl, fun other ho =>
        ?_, fun other ho => ?_⟩
      · simpa [findIdx_cons, hkey, hfa other (by simp [ho])] using hb other ho
      · simpa [findIdx_cons, hkey, hfa other (by simp [ho])] using ha other ho

lemma least_of_primaryKey (h : primaryKey infos = some key) :
    key.strategy = .ofRank key.info.keyRank ∧
    ∃ pre after, keyFields infos = pre ++ key.info :: after ∧
      (∀ other ∈ pre, key.info.keyRank < other.keyRank) ∧ ∀ other ∈ after,
      key.info.keyRank ≤ other.keyRank := by
  rw [primaryKey_eq_firstPassing] at h
  obtain ⟨hst, pre, after, heq, hb, ha⟩ := least_of_firstPassing h
  simp only [(findIdx_keyTests _).1] at hb ha
  exact ⟨Option.some.inj (hst.symm.trans (findIdx_keyTests key.info).2), pre, after, heq, hb, ha⟩

lemma mem_keyFields_of_primaryKey (h : primaryKey infos = some key) :
    key.info ∈ keyFields infos := by
  obtain ⟨-, pre, after, heq, -⟩ := least_of_primaryKey h
  simp [heq]

lemma mem_of_mem_keyFields (h : info ∈ keyFields infos) : info ∈ infos ∧ info.isStored := by
  obtain ⟨hm, hk⟩ := mem_filter.mp h
  simp only [isKey, Bool.and_eq_true] at hk
  exact ⟨hm, hk.1.1.1.1⟩

lemma mem_of_mem_uniqueKeyFields
    (h : info ∈ uniqueKeyFields infos (primaryKey infos)) : info ∈ infos ∧ info.isStored := by
  unfold uniqueKeyFields at h
  dsimp only at h
  split at h
  · cases hk : primaryKey infos with
    | none => simp [hk] at h
    | some key =>
      obtain rfl : info = key.info := by simpa [hk] using h
      exact mem_of_mem_keyFields (mem_keyFields_of_primaryKey hk)
  · exact mem_of_mem_keyFields (mem_of_mem_filter h)

lemma nodup_names_uniqueKeyFields (hnd : (infos.map name).Nodup) (key : Option PrimaryKey) :
    ((uniqueKeyFields infos key).map name).Nodup := by
  unfold uniqueKeyFields
  dsimp only
  split
  · cases key <;> simp
  · exact hnd.sublist ((filter_sublist.trans filter_sublist).map _)

lemma isSome_firstPassing_keyTests : (firstPassing fields keyTests).isSome = !fields.isEmpty := by
  cases fields <;> simp [firstPassing, keyTests]

/-- The chosen key has the least rank, and is the first one of this rank. -/
structure ChoosesLeast (infos : List FieldInfo) : Prop where
  found : (primaryKey infos).isSome ↔ ∃ info ∈ infos, info.isKey
  /-- The key is the first of the key fields of lowest rank, and its strategy is that of the rank. -/
  least : ∀ key, primaryKey infos = some key → key.strategy = .ofRank key.info.keyRank ∧
    ∃ before after, keyFields infos = before ++ key.info :: after ∧
      (∀ other ∈ before, key.info.keyRank < other.keyRank) ∧ ∀ other ∈ after,
        key.info.keyRank ≤ other.keyRank
  /-- Other fields make no difference, wherever they stand. -/
  others : ∀ before info after, infos = before ++ info :: after → info.isKey = false →
    primaryKey (before ++ after) = primaryKey infos
  eligible : ∀ info : FieldInfo, info.isKey ↔ info.kind = .property ∧ info.isComputed = false ∧
    info.isIgnored = false ∧ info.isSystemId = false ∧ info.isRelation = false ∧
      info.isTemporal = false ∧
    info.isSpatial = false ∧ info.isList = false

/-- A node type has a primary key exactly if it has a key field, and it is the first of those of
lowest rank. -/
theorem primaryKey_choosesLeast (infos : List FieldInfo) : ChoosesLeast infos where
  found := by
    rw [primaryKey_eq_firstPassing, isSome_firstPassing_keyTests]
    simp [keyFields]
  least := fun _ h => least_of_primaryKey h
  others := by
    rintro pre info after rfl hkey
    simp [primaryKey, keyFields, hkey]
  eligible := by
    intro info
    simp [isKey, isStored, and_assoc]

end GraphApi
