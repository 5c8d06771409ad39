import GraphApi.Proofs.Api.Contention
import GraphApi.Proofs.Api.KindTypes
import GraphApi.Proofs.Api.RelationshipClosure

/-!
# What stands under a shared name

Fields that implement one field of an interface share its generated types, and one registration of a
name is kept. A name that is neither declared nor that of an operation type is defined once: by the
first registration if types with directives are registered under it (`Catalog.definitionsOf_first`),
or by any if all agree (`Catalog.definitionsOf_agreed`).
-/

namespace GraphApi

open List Option

def Document.definitionsOf (doc : Document) (name : Name) : List TypeDef :=
  doc.typeDefs.filter (·.name == name)

/-- A document that defines a name once, by a type of which something holds. -/
def Document.DefinesAs (doc : Document) (name : Name) (holds : TypeDef → Prop) : Prop :=
  ∃ defn, doc.definitionsOf name = [defn] ∧ holds defn

lemma settled?_of_agree {registrations : List (TypeDef × Bool)} {defn : TypeDef} {name : Name}
    (hma : ∃ e ∈ registrations, e.1.name = name)
    (hag : ∀ e ∈ registrations, e.1.name = name → e.1 = defn) :
    settled? registrations name = some defn := by
  obtain ⟨e, he, rfl⟩ := hma
  obtain ⟨found, hfo⟩ := exists_settled? he
  obtain ⟨own, hm, hn⟩ := mem_of_settled? hfo
  exact hfo.trans (congrArg some (hag _ hm hn))

lemma settled?_of_unowned {registrations : List (TypeDef × Bool)} {name : Name}
    (h : ∀ e ∈ registrations, e.1.name = name → e.2 = false) :
    settled? registrations name = (registrations.find? (·.1.name == name)).map (·.1) := by
  have hno : (registrations.reverse.find? fun e => e.2 && e.1.name == name) = none := by
    rw [find?_eq_none]
    intro e he how
    rw [Bool.and_eq_true, beq_iff_eq] at how
    have huo := h e (mem_reverse.mp he) how.2
    rw [how.1] at huo
    cases huo
  rw [settled?, hno, none_or]

namespace Catalog

variable {cfg : Settings} {doc aug : Document} {cat : Catalog} {name : Name} {defn owner : TypeDef}
  {fd : FieldDef} {rel : Relationship}

/-- A name that neither a declared type nor an operation type has. -/
def IsFree (cat : Catalog) (name : Name) : Prop :=
  name ∉ cat.types.keys ∧ name ∉ cat.operationTypes.map (·.2.name)

/-- A free name under which only fields of one relationship type register types, each the one that
is made for it. -/
def KeepsTo (cat : Catalog) (name type : Name)
    (made : TypeDef → FieldDef → Relationship → TypeDef) : Prop :=
  cat.IsFree name ∧ ∀ entry ∈ cat.registrations, entry.1.name = name →
    ∃ owner field rel, cat.Queries owner field rel ∧ rel.typeName = type ∧
      entry.1 = made owner field rel

instance (cat : Catalog) (name type : Name) (made : TypeDef → FieldDef → Relationship → TypeDef) :
    Decidable (cat.KeepsTo name type made) :=
  inferInstanceAs (Decidable ((_ ∧ _) ∧ ∀ entry ∈ cat.registrations, entry.1.name = name →
    cat.SomeQueries fun owner field rel => rel.typeName = type ∧ entry.1 = made owner field rel))

/-- The field of a relationship type that is the first to register a type under a name. -/
structure ComesFirst (cat : Catalog) (name type : Name)
    (made : TypeDef → FieldDef → Relationship → TypeDef)
    (first : TypeDef) (member : FieldDef) (seen : Relationship) : Prop where
  queries : cat.Queries first member seen
  type : seen.typeName = type
  found : cat.registrations.find? (·.1.name == name) = some (made first member seen, false)

lemma ComesFirst.name_eq {type : Name} {made : TypeDef → FieldDef → Relationship → TypeDef}
    {fst : TypeDef}
    {m : FieldDef} {seen : Relationship} (h : cat.ComesFirst name type made fst m seen) :
    (made fst m seen).name = name := by
  simpa using find?_some h.found

/-- Relationships that two fields reach by one type are described by the same definition. -/
lemma Queries.describes (hs : cat.IsSorted) (h : cat.Queries owner fd rel) {fst : TypeDef}
    {m : FieldDef}
    {seen : Relationship} (hse : cat.Queries fst m seen) (ht : seen.typeName = rel.typeName) :
    ∃ desc source target, rel = describeRelationshipType cat owner.name fd.name desc source target ∧
      seen = describeRelationshipType cat fst.name m.name desc source target := by
  obtain ⟨desc, ends, hg, hen, rfl⟩ := reached?_eq_some.mp h.reaches.reached
  obtain ⟨other, otherEnds, hog, hoe, rfl⟩ := reached?_eq_some.mp hse.reaches.reached
  have hn : desc.name = fd.type.base := hs.nameOfType _ (NameMap.mem_of_get? hg)
  have hon : other.name = m.type.base := hs.nameOfType _ (NameMap.mem_of_get? hog)
  obtain rfl : other = desc := by
    have heq : other.name = desc.name := ht
    rw [← hon, heq, hn, hg] at hog
    exact (some.inj hog).symm
  rw [hen] at hoe
  obtain rfl := some.inj hoe
  exact ⟨_, _, _, rfl, rfl⟩

section Standing

variable {type : Name} {made : TypeDef → FieldDef → Relationship → TypeDef}
  (hcat : (ofDocument cfg doc).outcome = .ok cat) (h : cat.augment.outcome = .ok aug)
include h

lemma mem_registrations_of_registers (hs : cat.IsSorted) (hreg : cat.Registers defn) :
    ∃ own, (defn, own) ∈ cat.registrations := by
  obtain ⟨own, hev⟩ := (registers_iff hs).mpr hreg
  refine ⟨own, mem_append_left _ (mem_append_left _ ?_)⟩
  rw [filterMap_events h fun _ => rfl]
  exact mem_filterMap.mpr ⟨_, hev, rfl⟩

lemma directives_of_owner {e : TypeDef × Bool} (he : e ∈ cat.registrations) (how : e.2) :
    e.1.directives = [] := by
  rw [registrations_eq h] at he
  rcases mem_append.mp he with he | he
  · obtain ⟨owner, -, he⟩ := mem_flatMap.mp he
    obtain ⟨input, -, hma⟩ := nodeInput?_of_owner he how
    cases input with
    | selection =>
      obtain ⟨key, -, hk⟩ := map_eq_some_iff.mp hma
      rw [← hk]
      rfl
    | _ =>
      rw [← some.inj hma]
      rfl
  · rcases mem_append.mp he with he | he
    · obtain ⟨fixed, hfi, rfl⟩ := mem_map.mp he
      rcases isFixed_cases (.inl hfi : cat.IsFixed fixed) with ⟨kind, ms, -, rfl | rfl⟩ | ⟨-,
        rfl⟩ | rfl <;> rfl
    · split at he
      · simp at he
      · obtain rfl := mem_singleton.mp he
        cases how

/-- A name for types with directives is none of a temporal or spatial type. -/
lemma enabledKind?_of_keepsTo (hke : cat.KeepsTo name type made)
    (hmk : ∀ owner fd rel, (made owner fd rel).directives ≠ []) (hn : Text.startsWith "_" name) :
    enabledKind? cat.settings name = none := by
  cases hen : enabledKind? cat.settings name with
  | none => rfl
  | some kind =>
    have hfi : ∀ fixed ∈ storedTypes cat.settings, fixed.name ≠ name := by
      intro fixed hfi heq
      have he : (fixed, true) ∈ cat.registrations :=
        mem_append_left _ (mem_append_right _ (mem_map_of_mem hfi))
      obtain ⟨owner, fd, rel, -, -, hma⟩ := hke.2 _ he heq
      refine absurd (directives_of_owner h he rfl) ?_
      rw [hma]
      exact hmk owner fd rel
    obtain ⟨⟨output, hou, hon⟩, input, hin, hina⟩ := mem_storedTypes_of_enabledKind? hen
    obtain ⟨hb, hk⟩ := enabledKind?_eq_some.mp hen
    rcases eq_of_baseKind name with hp | hst | hst
    · -- a kind by itself does not start with an underscore
      rw [hp, hb] at hn
      obtain ⟨temporal, rfl, -⟩ | ⟨spatial, rfl, -⟩ := hk
      · cases temporal <;> exact absurd hn (by decide)
      · cases spatial
        exact absurd hn (by decide)
    · exact absurd (hon.trans (hb ▸ hst.symm)) (hfi output hou)
    · exact absurd (hina.trans (hb ▸ hst.symm)) (hfi input hin)

include hcat

lemma definitionsOf_of_free (hfr : cat.IsFree name) (hg : cat.generated.get? name = some defn) :
    aug.definitionsOf name = [defn.retarget cat.settings] := by
  have hs := isSorted_of_ok hcat
  have he := NameMap.mem_of_get? hg
  have hk : name = defn.name := (mem_generated hs he).1
  have hgen : name ∈ cat.generated.keys := mem_map_of_mem he
  have hco : (aug.typeDefs.map (·.name)).count name = 1 := by
    rw [count_names_augment hcat h (defined_of_generated hs h hgen), count_eq_zero.mpr hfr.2]
    simp [hgen]
  have hlen : (aug.definitionsOf name).length = 1 := by
    rw [← hco, count_eq_countP, countP_map, countP_eq_length_filter]
    rfl
  have hm : defn.retarget cat.settings ∈ aug.definitionsOf name := by
    obtain ⟨dirs, hts⟩ := typeDefs_augment hs h
    refine mem_filter.mpr ⟨?_, by simp [TypeDef.retarget, hk]⟩
    rw [hts]
    refine mem_append_left _ (mem_map_of_mem
      (mem_append_right _ (mem_keptTypes.mpr ⟨mem_map_of_mem he, ?_⟩)))
    exact hk ▸ hfr.1
  obtain ⟨only, hon⟩ := length_eq_one_iff.mp hlen
  rw [hon, mem_singleton] at hm
  rw [hon, hm]

/-- If all registrations of a free name agree, they define it. -/
theorem definitionsOf_agreed (hfr : cat.IsFree name)
    (hma : ∃ made, cat.Registers made ∧ made.name = name)
    (hag : ∀ e ∈ cat.registrations, e.1.name = name → e.1 = defn) :
    aug.definitionsOf name = [defn.retarget cat.settings] := by
  refine definitionsOf_of_free hcat h hfr ?_
  obtain ⟨made, hreg, hn⟩ := hma
  obtain ⟨own, he⟩ := mem_registrations_of_registers h (isSorted_of_ok hcat) hreg
  rw [get?_generated h]
  exact settled?_of_agree ⟨_, he, hn⟩ hag

/-- A free name that types share is defined by the first registration. -/
theorem definitionsOf_first (hke : cat.KeepsTo name type made)
    (hmk : ∀ owner fd rel, (made owner fd rel).directives ≠ [])
    (hma : ∃ defn, cat.Registers defn ∧ defn.name = name) :
    ∃ fst m seen, cat.ComesFirst name type made fst m seen ∧
      aug.definitionsOf name = [(made fst m seen).retarget cat.settings] := by
  obtain ⟨hfr, hon⟩ := hke
  have huo : ∀ e ∈ cat.registrations, e.1.name = name → e.2 = false := by
    intro e he hn
    obtain ⟨owner, fd, rel, -, -, hem⟩ := hon e he hn
    rw [← Bool.not_eq_true]
    intro how
    refine hmk owner fd rel ?_
    rw [← hem, directives_of_owner h he how]
  obtain ⟨defn, hreg, hn⟩ := hma
  obtain ⟨own, he⟩ := mem_registrations_of_registers h (isSorted_of_ok hcat) hreg
  have hfo : (cat.registrations.find? (·.1.name == name)).isSome :=
    find?_isSome.mpr ⟨_, he, by simpa using hn⟩
  obtain ⟨⟨found, own⟩, h1⟩ := isSome_iff_exists.mp hfo
  have hm := mem_of_find?_eq_some h1
  have hsp : found.name = name := by simpa using find?_some h1
  obtain rfl : own = false := huo _ hm hsp
  obtain ⟨fst, m, seen, hqu, ht, rfl⟩ := hon _ hm hsp
  refine ⟨fst, m, seen, ⟨hqu, ht, h1⟩, definitionsOf_of_free hcat h hfr ?_⟩
  rw [get?_generated h, settled?_of_unowned huo, h1, map_some]

end Standing

end Catalog

end GraphApi
