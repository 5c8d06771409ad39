import GraphApi.Proofs.Api.Collisions
import GraphApi.Proofs.Api.Reordering

/-!
# Names that types contend for

Under a generated name the first registration counts unless an owner makes one, and so does the
first offer of a field. So the order of the types shows only where two of them make different things
under one name (`Catalog.forall₂_keptTypes_reorders`, `Catalog.forall₂_sameRoot`).
-/

namespace GraphApi

open List Option NameMap

variable {α β γ : Type}

/-! ## Lists side by side -/

lemma forall₂_of_map_eq {view : α → γ} {related : α → α → Prop} {l1 l2 : List α}
    (hvi : l2.map view = l1.map view)
    (h : ∀ item ∈ l1, ∀ mate ∈ l2, view mate = view item → related item mate) :
    Forall₂ related l1 l2 := by
  induction l1 generalizing l2 with
  | nil =>
    rw [map_nil, map_eq_nil_iff] at hvi
    rw [hvi]
    exact .nil
  | cons item rest ih =>
    obtain ⟨mate, os, rfl, hi, hr⟩ := map_eq_cons_iff.mp hvi
    refine .cons (h item mem_cons_self mate mem_cons_self hi) (ih hr ?_)
    exact fun one hone other ho => h one (mem_cons_of_mem _ hone) other (mem_cons_of_mem _ ho)

lemma forall₂_join {left : α → β → Prop} {right : α → γ → Prop} {related : β → γ → Prop}
    {items : List α}
    {l1 : List β} {l2 : List γ} (hleft : Forall₂ left items l1) (hri : Forall₂ right items l2)
    (h : ∀ item ∈ items, ∀ one other, left item one → right item other → related one other) :
    Forall₂ related l1 l2 := by
  induction hleft generalizing l2 with
  | nil =>
    cases hri
    exact .nil
  | cons hhe _ ih =>
    cases hri with
    | cons ho hr =>
      refine .cons (h _ mem_cons_self _ _ hhe ho) (ih hr ?_)
      exact (forall_mem_cons.mp h).2

/-! ## The first of some results -/

lemma findSome?_of_perm {f : α → Option β} {l1 l2 : List α} (hpr : l2.Perm l1)
    (hag : ∀ one ∈ l1, ∀ other ∈ l1, ∀ res found, f one = some res → f other = some found →
      res = found) : l2.findSome? f = l1.findSome? f := by
  cases h1 : l1.findSome? f with
  | none =>
    rw [findSome?_eq_none_iff] at h1 ⊢
    exact fun item hi => h1 item (hpr.mem_iff.mp hi)
  | some res =>
    obtain ⟨one, hone, hres⟩ := exists_of_findSome?_eq_some h1
    cases h2 : l2.findSome? f with
    | none =>
      have hno := findSome?_eq_none_iff.mp h2 one (hpr.mem_iff.mpr hone)
      rw [hno] at hres
      cases hres
    | some found =>
      obtain ⟨other, ho, hfo⟩ := exists_of_findSome?_eq_some h2
      rw [hag one hone other (hpr.mem_iff.mp ho) res found hres hfo]

lemma isSome_findSome?_of_perm (f : α → Option β) {l1 l2 : List α} (hpr : l2.Perm l1) :
    (l2.findSome? f).isSome = (l1.findSome? f).isSome := by
  rw [isSome_findSome?, isSome_findSome?, hpr.any_eq]

/-- What is settled under a name stays settled when the types come in another order: the owners
agree, and if there is none, so do the types that register the name. -/
lemma settled?_of_perm {l1 l2 : List TypeDef} (hpr : l2.Perm l1)
    {made : TypeDef → List (TypeDef × Bool)} (rest : List (TypeDef × Bool)) {name : Name}
    (hos : ∀ one ∈ l1.flatMap made, ∀ other ∈ l1.flatMap made, one.2 → other.2 →
      one.1.name = name → other.1.name = name → one.1 = other.1)
    (hag : (∀ e ∈ l1.flatMap made ++ rest, e.1.name = name → e.2 = false) →
      ∀ one ∈ l1, ∀ other ∈ l1, ∀ res found, (made one).find? (·.1.name == name) = some res →
        (made other).find? (·.1.name == name) = some found → res.1 = found.1) :
    settled? (l2.flatMap made ++ rest) name = settled? (l1.flatMap made ++ rest) name := by
  have hall : (l2.flatMap made).Perm (l1.flatMap made) := hpr.flatMap_right made
  unfold settled?
  rw [reverse_append, reverse_append, find?_append, find?_append, find?_append, find?_append]
  cases hr : rest.reverse.find? fun e => e.2 && e.1.name == name with
  | some last => rfl
  | none =>
    rw [none_or, none_or]
    have hm {list : List (TypeDef × Bool)} {e : TypeDef × Bool}
        (h : (list.reverse.find? fun e => e.2 && e.1.name == name) = some e) :
        e ∈ list ∧ e.2 ∧ e.1.name = name := by
      have hho := find?_some h
      rw [Bool.and_eq_true, beq_iff_eq] at hho
      exact ⟨mem_reverse.mp (mem_of_find?_eq_some h), hho⟩
    have hno {list : List (TypeDef × Bool)}
        (h : (list.reverse.find? fun e => e.2 && e.1.name == name) = none) :
        ∀ e ∈ list, e.1.name = name → e.2 = false := by
      intro e he hn
      have hfr := find?_eq_none.mp h e (mem_reverse.mpr he)
      simpa [hn] using hfr
    cases h1 : (l1.flatMap made).reverse.find? fun e => e.2 && e.1.name == name with
    | some one =>
      obtain ⟨hone, how, hn⟩ := hm h1
      cases h2 : (l2.flatMap made).reverse.find? fun e => e.2 && e.1.name == name with
      | none =>
        have huo := hno h2 one (hall.mem_iff.mpr hone) hn
        rw [how] at huo
        cases huo
      | some other =>
        obtain ⟨ho, hoo, hon⟩ := hm h2
        have heq := hos one hone other (hall.mem_iff.mp ho) how hoo hn hon
        simp [heq]
    | none =>
      have hfr := hno h1
      have h2 : ((l2.flatMap made).reverse.find? fun e => e.2 && e.1.name == name) = none := by
        rw [find?_eq_none]
        intro e he hho
        rw [Bool.and_eq_true, beq_iff_eq] at hho
        have huo := hfr e (hall.mem_iff.mp (mem_reverse.mp he)) hho.2
        rw [hho.1] at huo
        cases huo
      have huo : ∀ e ∈ l1.flatMap made ++ rest, e.1.name = name → e.2 = false := by
        intro e he
        rcases mem_append.mp he with he | he
        · exact hfr e he
        · exact hno hr e he
      -- no owner has the name, so what counts is the first type that registers it
      have hbl : ((l2.flatMap made).find? (·.1.name == name)).map (·.1) =
          ((l1.flatMap made).find? (·.1.name == name)).map (·.1) := by
        rw [find?_flatMap, find?_flatMap, map_findSome?, map_findSome?]
        refine findSome?_of_perm hpr ?_
        intro one hone other ho res found hres hfo
        obtain ⟨e, he, rfl⟩ := map_eq_some_iff.mp hres
        obtain ⟨mate, hcp, rfl⟩ := map_eq_some_iff.mp hfo
        exact hag huo one hone other ho e mate he hcp
      rw [h2, none_or, none_or, map_or, map_or, hbl]

namespace Catalog

variable {cat : Catalog} {name : Name} {aug : Document} {defn : TypeDef}

/-! ## What types contend for -/

def registrationsOf (cat : Catalog) (defn : TypeDef) : List (TypeDef × Bool) :=
  (typeEffects cat defn).filterMap Event.registration?

def offersOf (cat : Catalog) (kind : OperationKind) (defn : TypeDef) : List FieldDef :=
  (typeEffects cat defn).filterMap (Event.offered? kind)

/-- What is registered for no type: the types of temporal and spatial values and the enum of
directions. -/
def fixedRegistrations (cat : Catalog) : List (TypeDef × Bool) :=
  (storedTypes cat.settings).map (·, true) ++
    if cat.types.contains directionsEnum then [] else [(directionsEnumDef, false)]

/-- A generated name that is neither declared nor registered by an owner, and under which two types
register different definitions first. -/
def IsContested (cat : Catalog) (name : Name) : Prop :=
  name ∉ cat.types.keys ∧ (∀ entry ∈ cat.registrations, entry.1.name = name → entry.2 = false) ∧
    ∃ one ∈ cat.types.values, ∃ other ∈ cat.types.values, ∃ result found,
      (cat.registrationsOf one).find? (·.1.name == name) = some result ∧
        (cat.registrationsOf other).find? (·.1.name == name) = some found ∧ result.1 ≠ found.1

def IsContestedField (cat : Catalog) (kind : OperationKind) (name : Name) : Prop :=
  cat.Undeclared kind name ∧ ∃ one ∈ cat.types.values, ∃ other ∈ cat.types.values, ∃ result found,
    (cat.offersOf kind one).find? (·.name == name) = some result ∧
      (cat.offersOf kind other).find? (·.name == name) = some found ∧ result ≠ found

lemma nodeInput?_of_registerOwn {owner : TypeDef}
    (h : Event.register defn true ∈ nodeEffects cat owner) :
    ∃ input : NodeInput, defn.name = input.name owner.name ∧
      cat.nodeInput? owner input = some defn := by
  obtain ⟨-, ⟨-, -, key, hk, rfl⟩ | ⟨-, rfl | ⟨-, rfl⟩⟩⟩ := registerOwn_mem_nodeEffects.mp h
  · exact ⟨.selection, rfl, by simp [nodeInput?, hk]⟩
  · exact ⟨.filter, (nodeInputs_names cat owner).1, rfl⟩
  · exact ⟨.ordering, (nodeInputs_names cat owner).2, rfl⟩

lemma nodeInput?_of_owner {owner : TypeDef} {e : TypeDef × Bool}
    (h : e ∈ cat.registrationsOf owner) (how : e.2) :
    ∃ input : NodeInput, e.1.name = input.name owner.name ∧
      cat.nodeInput? owner input = some e.1 := by
  obtain ⟨event, hev, hreg⟩ := mem_filterMap.mp h
  cases event with
  | note notice => cases hreg
  | offer kind fd => cases hreg
  | register defn own =>
    obtain rfl := some.inj hreg
    obtain rfl : own := how
    unfold typeEffects at hev
    split at hev
    · exact nodeInput?_of_registerOwn hev
    · simp at hev

lemma owners_agree (hs : cat.IsSorted) {one other : TypeDef × Bool}
    (hone : one ∈ cat.types.values.flatMap cat.registrationsOf)
    (ho : other ∈ cat.types.values.flatMap cat.registrationsOf) (hon : one.2)
    (hoo : other.2) (hn : one.1.name = other.1.name) : one.1 = other.1 := by
  obtain ⟨owner, how, hone⟩ := mem_flatMap.mp hone
  obtain ⟨rival, hri, ho⟩ := mem_flatMap.mp ho
  obtain ⟨input, hin, hma⟩ := nodeInput?_of_owner hone hon
  obtain ⟨otherInput, hoi, hom⟩ := nodeInput?_of_owner ho hoo
  rw [hin, hoi] at hn
  obtain ⟨rfl, heq⟩ := NodeInput.name_inj hn
  have hg := get?_of_mem_values hs how
  rw [heq, get?_of_mem_values hs hri] at hg
  obtain rfl := some.inj hg
  exact some.inj (hma.symm.trans hom)

lemma registrations_eq (h : cat.augment.outcome = .ok aug) :
    cat.registrations = cat.types.values.flatMap cat.registrationsOf ++ cat.fixedRegistrations := by
  unfold registrations registrationsOf fixedRegistrations
  rw [filterMap_events h fun _ => rfl, effects, filterMap_flatMap, append_assoc]

lemma offersTo_flatMap (h : cat.augment.outcome = .ok aug)
    (kind : OperationKind) : cat.offersTo kind = cat.types.values.flatMap (cat.offersOf kind) := by
  rw [offersTo_eq h, effects, filterMap_flatMap]
  rfl

/-- An operation type and its counterpart, which may differ in fields that types contend for. -/
structure SameRoot (cat : Catalog) (root mate : OperationKind × RootType) : Prop where
  kind : mate.1 = root.1
  definition : mate.2.definition = root.2.definition
  generated : mate.2.generated = root.2.generated
  names : (mate.2.fields.map (·.name)).Perm (root.2.fields.map (·.name))
  fields : ∀ field, ¬ cat.IsContestedField root.1 field.name →
    (field ∈ mate.2.fields ↔ field ∈ root.2.fields)
  perm : (∀ name, ¬ cat.IsContestedField root.1 name) → mate.2.fields.Perm root.2.fields

/-! ## What two catalogs make of their types -/

section Compare

variable {c1 c2 : Catalog} (hre : c1.Reorders c2) {aug other : Document}
  (h : c1.augment.outcome = .ok aug) (ho : c2.augment.outcome = .ok other)

include hre

lemma Reorders.values : c2.types.values.Perm c1.types.values := hre.perm.map _

lemma Reorders.mem_keys : name ∈ c2.types.keys ↔ name ∈ c1.types.keys := (hre.perm.map _).mem_iff

lemma Reorders.fixedRegistrations : c2.fixedRegistrations = c1.fixedRegistrations := by
  have hco : c2.types.contains directionsEnum = c1.types.contains directionsEnum := by
    rw [NameMap.contains, NameMap.contains, hre.types]
  unfold Catalog.fixedRegistrations
  rw [hre.settings, hco]

include h

lemma augmentedType_reorders (hd : defn ∈ c1.types.values) :
    (augmentedType c2 defn, augmentedExtensions? c2 defn) =
        (augmentedType c1 defn, augmentedExtensions? c1 defn) ∧
        typeEffects c2 defn = typeEffects c1 defn := by
  obtain ⟨outcomes, hts⟩ := augmentTypes_ok h
  obtain ⟨outcome, -, hout⟩ := exists_of_forall₂ (Pass.each_ok_iff.mp hts) hd
  have hyi := (augmentType_traces c1 defn).yields hout
  rw [← hre.augmentType] at hout
  have hag := (augmentType_traces c2 defn).yields hout
  rw [hre.augmentType] at hag
  exact ⟨Except.ok.inj (hag.outcome.symm.trans hyi.outcome), hag.effects.symm.trans hyi.effects⟩

lemma augmentedRoot_reorders {root : OperationKind × RootType} (hr : root ∈ c1.roots) :
    (augmentedRoot c2 root.2, (c2.extensionsOf root.2.name).map (augmentedRootExtension c2)) =
      (augmentedRoot c1 root.2, (c1.extensionsOf root.2.name).map (augmentedRootExtension c1)) := by
  obtain ⟨⟨outcomes, hrs⟩, -⟩ := augment_isOk_iff.mp ⟨aug, h⟩
  obtain ⟨results, hec, -⟩ := Run.bind_ok_iff.mp hrs
  obtain ⟨outcome, -, hout⟩ := exists_of_forall₂ (Pass.each_ok_iff.mp hec) hr
  have hyi := (augmentRoot_traces c1 root.2).yields hout
  rw [← hre.augmentRoot] at hout
  have hag := (augmentRoot_traces c2 root.2).yields hout
  rw [hre.augmentRoot] at hag
  exact Except.ok.inj (hag.outcome.symm.trans hyi.outcome)

lemma augmentedExt_reorders (hs : c1.IsSorted) {e : Name × List TypeExt} (he : e ∈ c1.extensions)
    {extn : TypeExt} (hx : extn ∈ e.2) : c2.augmentedExt extn = c1.augmentedExt extn := by
  have hn := hs.nameOfExtension e he extn hx
  have hown : extn ∈ c1.extensionsOf extn.name := by
    rwa [extensionsOf, hn, get?_eq_some_of_mem hs.nodupExtensions he]
  unfold augmentedExt
  rw [hre.types]
  split
  next defn hno =>
    obtain ⟨hg, hin⟩ := filter_eq_some_iff.mp hno
    have hd : defn.name = extn.name := hs.nameOfType _ (mem_of_get? hg)
    have heq := congrArg Prod.snd (augmentedType_reorders hre h (mem_map_of_mem (mem_of_get? hg))).1
    simp only [augmentedExtensions?, hin, if_true, some.injEq, hre.extensionsOf, hd] at heq
    exact map_inj_left.mp heq extn hown
  · rw [hre.operationOf?]
    split
    next hso =>
      obtain ⟨root, hr, hrn⟩ := mem_map.mp (operationOf?_isSome_iff.mp hso)
      have heq := congrArg Prod.snd (augmentedRoot_reorders hre h hr)
      simp only [hre.extensionsOf, hrn] at heq
      exact map_inj_left.mp heq extn hown
    · rfl

lemma flatMap_registrationsOf_reorders :
    c2.types.values.flatMap c2.registrationsOf = c2.types.values.flatMap c1.registrationsOf := by
  refine flatMap_congr fun defn hd => ?_
  rw [registrationsOf, registrationsOf, (augmentedType_reorders hre h (hre.values.mem_iff.mp hd)).2]

lemma flatMap_offersOf_reorders (kind : OperationKind) :
    c2.types.values.flatMap (c2.offersOf kind) = c2.types.values.flatMap (c1.offersOf kind) := by
  refine flatMap_congr fun defn hd => ?_
  rw [offersOf, offersOf, (augmentedType_reorders hre h (hre.values.mem_iff.mp hd)).2]

include ho

lemma get?_generated_reorders (hs : c1.IsSorted) (hfr : name ∉ c1.types.keys)
    (hun : ¬ c1.IsContested name) : c2.generated.get? name = c1.generated.get? name := by
  rw [get?_generated h, get?_generated ho, registrations_eq h, registrations_eq ho,
    hre.fixedRegistrations, flatMap_registrationsOf_reorders hre h]
  refine settled?_of_perm hre.values _ ?_ ?_
  · intro one hone rival hri how hro hn hrn
    exact owners_agree hs hone hri how hro (hn.trans hrn.symm)
  · intro huo one hone rival hri res found hres hfo
    by_contra hdi
    rw [← registrations_eq h] at huo
    exact hun ⟨hfr, huo, one, hone, rival, hri, res, found, hres, hfo, hdi⟩

lemma mem_keys_generated_reorders : name ∈ c2.generated.keys ↔ name ∈ c1.generated.keys := by
  have hset {cat : Catalog} {doc : Document} (hok : cat.augment.outcome = .ok doc) :
      name ∈ cat.generated.keys ↔ ∃ e ∈ cat.registrations, e.1.name = name := by
    rw [← not_iff_not, ← get?_eq_none_iff, get?_generated hok]
    constructor
    · rintro hno ⟨e, he, rfl⟩
      obtain ⟨defn, hso⟩ := exists_settled? he
      rw [hno] at hso
      cases hso
    · intro hun
      by_contra hso
      obtain ⟨defn, hd⟩ := ne_none_iff_exists'.mp hso
      obtain ⟨owner, he, hn⟩ := mem_of_settled? hd
      exact hun ⟨_, he, hn⟩
  have hall : c2.registrations.Perm c1.registrations := by
    rw [registrations_eq h, registrations_eq ho, hre.fixedRegistrations,
      flatMap_registrationsOf_reorders hre h]
    exact (hre.values.flatMap_right _).append_right _
  rw [hset h, hset ho]
  simp only [hall.mem_iff]

/-! ## Generated types -/

lemma mem_keptTypes_reorders (hs : c1.IsSorted) (hso : c2.IsSorted)
    (hun : ¬ c1.IsContested defn.name) :
    defn ∈ keptTypes c2.types c2.generated ↔ defn ∈ keptTypes c1.types c1.generated := by
  have hst {cat : Catalog} (hcat : cat.IsSorted) :
      defn ∈ cat.generated.values ↔ cat.generated.get? defn.name = some defn := by
    constructor
    · intro hm
      obtain ⟨e, he, rfl⟩ := mem_map.mp hm
      rw [← (mem_generated hcat he).1]
      exact get?_eq_some_of_mem cat.nodup_keys_generated he
    · exact fun hg => mem_map_of_mem (mem_of_get? hg)
  rw [mem_keptTypes, mem_keptTypes, hst hs, hst hso, hre.mem_keys, and_congr_left_iff]
  intro hfr
  rw [get?_generated_reorders hre h ho hs hfr hun]

lemma names_keptTypes_reorders (hs : c1.IsSorted) (hso : c2.IsSorted) :
    (keptTypes c2.types c2.generated).map (·.name) = (keptTypes c1.types c1.generated).map
      (·.name) := by
  have hri (cat : Catalog) : ((keptTypes cat.types cat.generated).map (·.name)).Pairwise
      (· ≤ ·) := by
    rw [pairwise_map]
    exact (pairwise_sortByName _).sublist filter_sublist
  have hns : ((keptTypes c2.types c2.generated).map (·.name)).Perm
      ((keptTypes c1.types c1.generated).map (·.name)) := by
    rw [perm_ext_iff_of_nodup (nodup_names_keptTypes hso) (nodup_names_keptTypes hs)]
    intro name
    rw [mem_names_keptTypes hs, mem_names_keptTypes hso, hre.mem_keys,
      mem_keys_generated_reorders hre h ho]
  exact hns.eq_of_pairwise (fun _ _ _ _ => le_antisymm) (hri c2) (hri c1)

/-- The same names are generated, and under names that no types contend for the same types. -/
theorem forall₂_keptTypes_reorders (hs : c1.IsSorted) (hso : c2.IsSorted) :
    Forall₂ (fun defn mate : TypeDef => mate.name = defn.name ∧
      (¬ c1.IsContested defn.name → mate = defn))
      (keptTypes c1.types c1.generated) (keptTypes c2.types c2.generated) := by
  refine forall₂_of_map_eq (names_keptTypes_reorders hre h ho hs hso) ?_
  intro defn hd mate hcp hn
  refine ⟨hn, fun hun => ?_⟩
  have hm := (mem_keptTypes_reorders hre h ho hs hso hun).mpr hd
  exact inj_on_of_nodup_map (nodup_names_keptTypes hso) hcp hm hn

/-! ## Operation types -/

omit hre ho in
lemma forall₂_takes : Forall₂ (fun pre after => ∃ added, c1.Completes pre after added ∧
    ∀ fd, fd ∈ added ↔ pre.2.has fd.name = false ∧
      (c1.offersTo pre.1).find? (·.name == fd.name) = some fd) c1.roots c1.progress.roots := by
  rw [progress_roots, forall₂_map_right_iff]
  refine forall₂_same.mpr fun pre _ => ?_
  obtain ⟨added, hsub, hga⟩ := (augmentedRoot c1 pre.2).exists_gains
    (c1.effects.filterMap (Event.offered? pre.1))
  refine ⟨added, completes_of_gains hga hsub, fun fd => ?_⟩
  rw [hga.mem_iff, has_augmentedRoot, offersTo_eq h]

lemma isSome_find?_offersTo_reorders (kind : OperationKind) (name : Name) :
    ((c2.offersTo kind).find? (·.name == name)).isSome =
      ((c1.offersTo kind).find? (·.name == name)).isSome := by
  rw [offersTo_flatMap h, offersTo_flatMap ho, flatMap_offersOf_reorders hre h, find?_flatMap,
    find?_flatMap]
  exact isSome_findSome?_of_perm _ hre.values

lemma find?_offersTo_reorders {kind : OperationKind} (hnew : c1.Undeclared kind name)
    (hun : ¬ c1.IsContestedField kind name) :
    (c2.offersTo kind).find? (·.name == name) = (c1.offersTo kind).find? (·.name == name) := by
  rw [offersTo_flatMap h, offersTo_flatMap ho, flatMap_offersOf_reorders hre h, find?_flatMap,
    find?_flatMap]
  refine findSome?_of_perm hre.values ?_
  intro one hone rival hri res found hres hfo
  by_contra hdi
  exact hun ⟨hnew, one, hone, rival, hri, res, found, hres, hfo, hdi⟩

/-- Operation types gain fields of the same names, and the same fields unless types contend for
them. -/
theorem forall₂_sameRoot (hki : (c1.roots.map (·.1)).Nodup) :
    Forall₂ c1.SameRoot c1.progress.roots c2.progress.roots := by
  have hta := forall₂_takes ho
  rw [hre.roots] at hta
  refine forall₂_join (forall₂_takes h) hta ?_
  rintro pre hb root mate ⟨added, hr, hadd⟩ ⟨os, hcp, hos⟩
  have hown : pre.2.fields.map (rootField c2 pre.2.name) =
      pre.2.fields.map (rootField c1 pre.2.name) :=
    congrArg (·.1.fields) (augmentedRoot_reorders hre h hb)
  -- what is new on this operation type is declared on no operation type of its kind
  have hund {name : Name} (hnew : pre.2.has name = false) : c1.Undeclared pre.1 name := by
    intro other ho
    have heq : other = pre.2 := congrArg Prod.snd (inj_on_of_nodup_map hki ho hb rfl)
    rwa [heq]
  have hns : (os.map (·.name)).Perm (added.map (·.name)) := by
    rw [perm_ext_iff_of_nodup hcp.nodup hr.nodup]
    have hoff {cat : Catalog} {fields : List FieldDef} (hfs : ∀ fd, fd ∈ fields ↔
        pre.2.has fd.name = false ∧ (cat.offersTo pre.1).find? (·.name == fd.name) =
        some fd) (name : Name) : name ∈ fields.map (·.name) ↔
          pre.2.has name = false ∧ ((cat.offersTo pre.1).find? (·.name == name)).isSome := by
      constructor
      · intro hn
        obtain ⟨fd, hf, rfl⟩ := mem_map.mp hn
        obtain ⟨hnew, h1⟩ := (hfs fd).mp hf
        exact ⟨hnew, by rw [h1, isSome_some]⟩
      · rintro ⟨hnew, hso⟩
        obtain ⟨fd, hf⟩ := isSome_iff_exists.mp hso
        obtain rfl : fd.name = name := by simpa using find?_some hf
        exact mem_map_of_mem ((hfs fd).mpr ⟨hnew, hf⟩)
    intro name
    rw [hoff hadd, hoff hos, isSome_find?_offersTo_reorders hre h ho]
  have hm {fd : FieldDef} (hun : ¬ c1.IsContestedField pre.1 fd.name) : fd ∈ os ↔ fd ∈ added := by
    rw [hadd, hos, and_congr_right_iff]
    intro hnew
    rw [find?_offersTo_reorders hre h ho (hund hnew) hun]
  refine ⟨?_, ?_, ?_, ?_, ?_, ?_⟩
  · rw [hr.kind, hcp.kind]
  · rw [hr.definition, hcp.definition]
  · rw [hr.generated, hcp.generated]
  · rw [hr.fields, hcp.fields, hown, map_append, map_append]
    exact hns.append_left _
  · intro fd hun
    rw [hr.kind] at hun
    rw [hr.fields, hcp.fields, hown, mem_append, mem_append, hm hun]
  · intro hun
    rw [hr.kind] at hun
    rw [hr.fields, hcp.fields, hown]
    refine Perm.append_left _ ?_
    rw [perm_ext_iff_of_nodup hcp.nodup.of_map hr.nodup.of_map]
    exact fun fd => hm (hun fd.name)

end Compare

end Catalog

end GraphApi
