import GraphApi.Proofs.Api.DistinctNames
import GraphApi.Proofs.Api.Origins

/-!
# Generated names that collide

Generated names are put together from declared ones without marks between them, so two of them may
spell alike. Under a type name stands what an owner registered last, or else what was registered
first; of fields the first offer counts. Main statement: `Document.settlesNames_of_catalog`.
-/

namespace GraphApi

open List Event RootType Progress Bool NameMap

/-- What stands under a name after some registrations: what an owner registered last, or else what
was registered first. -/
def settled? (registrations : List (TypeDef × Bool)) (name : Name) : Option TypeDef :=
  ((registrations.reverse.find? fun entry => entry.2 && entry.1.name == name).or
    (registrations.find? (·.1.name == name))).map (·.1)

namespace Catalog

variable (cat : Catalog)

/-- All registrations in order: those of the pass over the types, then the types that do not depend
on the document. -/
def registrations : List (TypeDef × Bool) :=
  (augmentTypes cat).events.filterMap registration? ++ (storedTypes cat.settings).map (·, true) ++
    if cat.types.contains directionsEnum then [] else [(directionsEnumDef, false)]

def offersTo (kind : OperationKind) : List FieldDef :=
  (augmentTypes cat).events.filterMap (offered? kind)

/-- Whether neither an operation type nor an extension of it declares a field. -/
def Undeclared (kind : OperationKind) (name : Name) : Prop :=
  ∀ root, (kind, root) ∈ cat.roots → root.has name = false

/-- Types of one name that are made for different things. Not both are input types of declared
types. -/
def TypesCollide (first second : TypeDef) : Prop :=
  ∃ origin other, cat.ComesFrom first origin ∧ cat.ComesFrom second other ∧ origin ≠ other ∧
    origin.name = other.name ∧ ¬ (origin.isInput ∧ other.isInput)

/-- Mutations of one name that are made for different things. The action is the same, and one of
them is a mutation of a relationship, whose owner and field together spell what the other is
about. -/
def MutationsCollide (first second : FieldDef) : Prop :=
  ∃ origin other : FieldOrigin, cat.fieldOf? origin = some first ∧
    cat.fieldOf? other = some second ∧
    origin ≠ other ∧ origin.word = other.word ∧ origin.subject = other.subject ∧
    (origin.isRelationship ∨ other.isRelationship)

/-- Only definitions that are made for different things differ under one name. -/
structure SeparatesNames (cat : Catalog) : Prop where
  types : ∀ first ∈ cat.registrations, ∀ second ∈ cat.registrations, first.1.name = second.1.name →
    first.1 = second.1 ∨ cat.TypesCollide first.1 second.1
  fields : ∀ kind, ∀ first ∈ cat.offersTo kind, ∀ second ∈ cat.offersTo kind,
    first.name = second.name →
    first = second ∨ (kind = .mutation ∧ cat.MutationsCollide first second)

/-- How the names of generated types are settled. -/
structure SettlesTypes (cat : Catalog) (aug : Document) : Prop where
  /-- Under each name stands what an owner registered last, or else what was registered first. -/
  settled : ∀ name, cat.generated.get? name = settled? cat.registrations name
  /-- What stands there is in the document. -/
  emitted : ∀ defn ∈ cat.generated.values, defn.retarget cat.settings ∈ aug.typeDefs
  /-- No registered type is lost exactly if registrations of one name agree. -/
  lossless : (∀ entry ∈ cat.registrations, entry.1 ∈ cat.generated.values) ↔
    ∀ first ∈ cat.registrations, ∀ second ∈ cat.registrations, first.1.name = second.1.name →
      first.1 = second.1

/-- How the names of generated fields of operation types are settled. -/
structure SettlesFields (cat : Catalog) (aug : Document) : Prop where
  reached : ∀ kind, ∀ field ∈ cat.offersTo kind, ∃ root, (kind, root) ∈ cat.progress.roots
  /-- Under each name that is not declared stands what was offered first. -/
  settled : ∀ kind root, (kind, root) ∈ cat.progress.roots → ∀ name, cat.Undeclared kind name →
    root.fields.find? (·.name == name) = (cat.offersTo kind).find? (·.name == name)
  emitted : ∀ root ∈ cat.progress.roots, root.2.fields ≠ [] →
    root.2.build.retarget cat.settings ∈ aug.typeDefs
  /-- No offered field is lost, but to a declared one, exactly if offers of one name agree. -/
  lossless : ∀ kind, (∀ field ∈ cat.offersTo kind, cat.Undeclared kind field.name →
      ∀ root, (kind, root) ∈ cat.progress.roots → field ∈ root.fields) ↔
    ∀ first ∈ cat.offersTo kind, ∀ second ∈ cat.offersTo kind, cat.Undeclared kind first.name →
      first.name = second.name → first = second

end Catalog

/-! ## Registrations -/

lemma exists_settled? {registrations : List (TypeDef × Bool)} {e : TypeDef × Bool}
    (h : e ∈ registrations) : ∃ defn, settled? registrations e.1.name = some defn := by
  have hfo : (registrations.find? (·.1.name == e.1.name)).isSome := find?_isSome.mpr ⟨e, h, by simp⟩
  obtain ⟨fst, h1⟩ := Option.isSome_iff_exists.mp hfo
  unfold settled?
  rw [h1]
  cases registrations.reverse.find? fun other => other.2 && other.1.name == e.1.name with
  | none => exact ⟨fst.1, rfl⟩
  | some last => exact ⟨last.1, rfl⟩

lemma mem_of_settled? {registrations : List (TypeDef × Bool)} {name : Name} {defn : TypeDef}
    (h : settled? registrations name = some defn) :
    ∃ owner, (defn, owner) ∈ registrations ∧ defn.name = name := by
  obtain ⟨e, he, rfl⟩ := Option.map_eq_some_iff.mp h
  rcases Option.or_eq_some_iff.mp he with hl | ⟨-, h1⟩
  · have hma := find?_some hl
    rw [and_eq_true, beq_iff_eq] at hma
    exact ⟨e.2, mem_reverse.mp (mem_of_find?_eq_some hl), hma.2⟩
  · have hma := find?_some h1
    exact ⟨e.2, mem_of_find?_eq_some h1, beq_iff_eq.mp hma⟩

namespace Progress

/-- One more registration: an owner replaces what stands there, and anyone else only fills a gap. -/
lemma get?_register (generated : NameMap TypeDef) (defn : TypeDef) (owner : Bool) (name : Name) :
    (register generated defn owner).get? name = if defn.name = name then
        if owner then some defn else (generated.get? name).or (some defn)
        else generated.get? name := by
  unfold register NameMap.contains
  by_cases hn : defn.name = name
  · subst hn
    cases owner <;> cases hg : generated.get? defn.name <;> simp [hg]
  · split <;> simp [hn]

lemma get?_registerAll (registrations : List (TypeDef × Bool)) (name : Name) :
    (registerAll registrations).get? name = settled? registrations name := by
  induction registrations using reverseRecOn with
  | nil => rfl
  | append_singleton es e ih =>
    obtain ⟨defn, owner⟩ := e
    rw [registerAll_concat, get?_register, ih]
    unfold settled?
    rw [reverse_concat, find?_cons, find?_append]
    by_cases hn : defn.name = name
    · subst hn
      cases owner with
      | true => simp
      | false =>
        cases es.reverse.find? fun e => e.2 && e.1.name == defn.name <;>
          cases es.find? (·.1.name == defn.name) <;> simp
    · have ho : (owner && defn.name == name) = false := by simp [hn]
      simp [hn, ho]

end Progress

/-! ## The steps of an augmentation -/

namespace Catalog

variable {cat : Catalog} {kind : OperationKind} {fd : FieldDef} {e : TypeDef × Bool}
  {aug : Document}

lemma offers_of_mem_offersTo (h : fd ∈ cat.offersTo kind) : cat.Offers kind fd :=
  offers_of_mem_effects ((augmentTypes_traces cat).mem_effects (mem_offers.mp h) rfl)

lemma registers_or_isFixed (hs : cat.IsSorted) (he : e ∈ cat.registrations) :
    cat.Registers e.1 ∨ cat.IsFixed e.1 :=
  (mem_registrationsFrom he).imp_left fun hreg =>
    (registers_iff hs).mp ⟨e.2, (augmentTypes_traces cat).mem_effects hreg rfl⟩

lemma augmentTypes_ok (h : cat.augment.outcome = .ok aug) :
    ∃ outcomes, (augmentTypes cat).outcome = .ok outcomes := by
  obtain ⟨_, _, har⟩ := Run.bind_ok_iff.mp h
  obtain ⟨_, hts, _⟩ := Run.bind_ok_iff.mp har
  obtain ⟨outcomes, hpa, _⟩ := Pass.finish_ok_iff.mp hts
  exact ⟨outcomes, hpa⟩

section

variable (h : cat.augment.outcome = .ok aug)
include h

lemma filterMap_events {α : Type} {view : Event → Option α}
    (hno : ∀ notice, view (.note notice) = none) :
    (augmentTypes cat).events.filterMap view = cat.effects.filterMap view := by
  obtain ⟨outcomes, hpa⟩ := augmentTypes_ok h
  unfold effects
  rw [← ((augmentTypes_traces cat).yields hpa).effects, Pass.filterMap_isEffect hno]

lemma offersTo_eq (kind : OperationKind) :
    cat.offersTo kind = cat.effects.filterMap (offered? kind) :=
  filterMap_events h fun _ => rfl

/-- The registrations settle what is generated under a name. -/
lemma get?_generated (name : Name) : cat.generated.get? name = settled? cat.registrations name := by
  rw [generated_eq_registerAll, get?_registerAll, registrationsFrom,
    ← filterMap_events h fun _ => rfl]
  rfl

end

/-! ## Types -/

lemma exists_origin_of_mem_registrations (hs : cat.IsSorted)
    (he : e ∈ cat.registrations) : ∃ origin, cat.ComesFrom e.1 origin := by
  rcases registers_or_isFixed hs he with hreg | hfi
  · exact exists_typeOrigin hs hreg
  · exact ⟨_, comesFrom_of_isFixed hfi⟩

lemma eq_or_typesCollide (hs : cat.IsSorted) {fst snd : TypeDef × Bool}
    (h1 : fst ∈ cat.registrations) (h2 : snd ∈ cat.registrations)
    (hn : fst.1.name = snd.1.name) : fst.1 = snd.1 ∨ cat.TypesCollide fst.1 snd.1 := by
  obtain ⟨origin, hma, hsp⟩ := exists_origin_of_mem_registrations hs h1
  obtain ⟨other, hom, hos⟩ := exists_origin_of_mem_registrations hs h2
  have hsame : origin.name = other.name := hsp.symm.trans (hn.trans hos)
  by_cases heq : origin = other
  · subst heq
    exact .inl (Option.some.inj (hma.symm.trans hom))
  · refine .inr ⟨origin, other, ⟨hma, hsp⟩, ⟨hom, hos⟩, heq, hsame, ?_⟩
    rintro ⟨hin, hoi⟩
    -- input types that spell alike are the same one of the same type
    cases origin with
    | input part type =>
      cases other with
      | input otherPart otherType =>
        obtain ⟨rfl, rfl⟩ := NodeInput.name_inj hsame
        exact heq rfl
      | _ => cases hoi
    | _ => cases hin

lemma registrations_kept_iff (hs : cat.IsSorted) (h : cat.augment.outcome = .ok aug) :
    (∀ e ∈ cat.registrations, e.1 ∈ cat.generated.values) ↔
    ∀ fst ∈ cat.registrations, ∀ snd ∈ cat.registrations, fst.1.name = snd.1.name →
      fst.1 = snd.1 := by
  have hg {defn : TypeDef} (hd : defn ∈ cat.generated.values) : cat.generated.get? defn.name =
      some defn := by
    obtain ⟨e, he, rfl⟩ := mem_map.mp hd
    rw [← (mem_generated hs he).1]
    exact get?_eq_some_of_mem cat.nodup_keys_generated he
  constructor
  · intro hkp fst h1 snd h2 hn
    have ho := hg (hkp snd h2)
    rw [← hn, hg (hkp fst h1)] at ho
    exact Option.some.inj ho
  · intro hag e he
    obtain ⟨defn, hset⟩ := exists_settled? he
    obtain ⟨owner, hreg, hn⟩ := mem_of_settled? hset
    rw [← get?_generated h] at hset
    rw [← hag _ hreg e he hn]
    exact mem_map_of_mem (mem_of_get? hset)

lemma mem_typeDefs_of_mem_generated {cfg : Settings} {doc aug : Document}
    (hcat : (ofDocument cfg doc).outcome = .ok cat)
    (hp : ∀ defn ∈ doc.typeDefs, Text.startsWith "_" defn.name = false)
    (h : cat.augment.outcome = .ok aug) {defn : TypeDef} (hdef : defn ∈ cat.generated.values) :
    defn.retarget cat.settings ∈ aug.typeDefs := by
  have hs := isSorted_of_ok hcat
  obtain ⟨dirs, hts⟩ := typeDefs_augment hs h
  rw [hts]
  refine mem_append_left _ (mem_map_of_mem (mem_append_right _ (mem_keptTypes.mpr ⟨hdef, ?_⟩)))
  intro hd
  obtain ⟨e, he, rfl⟩ := mem_map.mp hdef
  obtain ⟨decl, hv, hn⟩ := mem_map.mp hd
  have hg := get?_eq_some_of_mem hs.nodupTypes hv
  obtain ⟨hif, heq⟩ := inForce_of_get? hcat hg
  have hus := startsWith_of_mem_generated hs (mem_map_of_mem he)
  rw [(mem_generated hs he).1, ← hn, ← heq, hp _ (Document.mem_typeDefs_of_inForce hif)] at hus
  cases hus

/-! ## Fields -/

lemma exists_root_of_offers (h : cat.Offers kind fd) : ∃ root, (kind, root) ∈ cat.roots := by
  have hr {type : Name} (haug : cat.augments kind type) : ∃ root, (kind, root) ∈ cat.roots := by
    obtain ⟨root, hlo⟩ := Option.isSome_iff_exists.mp (root?_isSome_of_augments haug)
    obtain ⟨earlier, later, hrs, -⟩ := lookup_eq_some_iff.mp hlo
    exact ⟨root, hrs ▸ mem_append_right _ mem_cons_self⟩
  rcases h.shape with ⟨rfl, owner, -, haug, -⟩ | ⟨rfl, owner, -, haug, -⟩ | ⟨rfl, owner, -, m, -,
    rel, -, hmut, -⟩
  · exact hr haug
  · exact hr haug
  · simp only [Relationship.isMutable, canMutate, and_eq_true] at hmut
    exact hr hmut.1.1.1

lemma eq_or_mutationsCollide {fst snd : FieldDef} (h1 : fst ∈ cat.offersTo kind)
    (h2 : snd ∈ cat.offersTo kind) (hn : fst.name = snd.name) :
    fst = snd ∨ (kind = .mutation ∧ cat.MutationsCollide fst snd) := by
  obtain ⟨origin, hk, hma, hsp⟩ := exists_fieldOrigin (offers_of_mem_offersTo h1)
  obtain ⟨other, hok, hom, hos⟩ := exists_fieldOrigin (offers_of_mem_offersTo h2)
  by_cases heq : origin = other
  · subst heq
    exact .inl (Option.some.inj (hma.symm.trans hom))
  · obtain ⟨hmut, hw, hsu, hrel⟩ := FieldOrigin.isRelationship_of_ne
      (hk.trans hok.symm) (hsp.symm.trans (hn.trans hos)) heq
    exact .inr ⟨hk.symm.trans hmut, origin, other, hma, hom, heq, hw, hsu, hrel⟩

lemma exists_root_of_mem_offersTo (hf : fd ∈ cat.offersTo kind) :
    ∃ pre after added, (kind, pre) ∈ cat.roots ∧ (kind, after) ∈ cat.progress.roots ∧
      cat.Completes (kind, pre) (kind, after) added := by
  obtain ⟨pre, hb⟩ := exists_root_of_offers (offers_of_mem_offersTo hf)
  obtain ⟨⟨other, after⟩, ha, added, hcom⟩ := exists_completed hb
  obtain rfl : other = kind := hcom.kind
  exact ⟨pre, after, added, hb, ha, hcom⟩

section

variable (h : cat.augment.outcome = .ok aug)
include h

lemma find?_fields {root : RootType} (hr : (kind, root) ∈ cat.progress.roots) {name : Name}
    (hnew : cat.Undeclared kind name) :
    root.fields.find? (·.name == name) = (cat.offersTo kind).find? (·.name == name) := by
  rw [progress_roots] at hr
  obtain ⟨pre, hb, heq⟩ := mem_map.mp hr
  obtain ⟨rfl, rfl⟩ := Prod.mk.inj heq
  rw [offersTo_eq h, find?_addAll ((has_augmentedRoot cat pre.2 name).trans (hnew pre.2 hb))]

lemma offers_kept_iff (kind : OperationKind) :
      (∀ fd ∈ cat.offersTo kind, cat.Undeclared kind fd.name →
      ∀ root, (kind, root) ∈ cat.progress.roots → fd ∈ root.fields) ↔
    ∀ fst ∈ cat.offersTo kind, ∀ snd ∈ cat.offersTo kind, cat.Undeclared kind fst.name →
      fst.name = snd.name → fst = snd := by
  constructor
  · intro hkp fst h1 snd h2 hnew hn
    obtain ⟨pre, after, added, hb, ha, hcom⟩ := exists_root_of_mem_offersTo h1
    -- a field of a new name is one of the added ones, which have distinct names
    have hadd {fd : FieldDef} (hf : fd ∈ after.fields) (hfr : cat.Undeclared kind fd.name) :
        fd ∈ added := by
      rw [show after.fields = _ from hcom.fields] at hf
      refine (mem_append.mp hf).resolve_left fun hown => ?_
      obtain ⟨decl, hd, rfl⟩ := mem_map.mp hown
      have hfe := hfr pre hb
      rw [(gainsField_rootField ..).name, has, or_eq_false_iff, any_eq_false] at hfe
      exact hfe.2 decl hd (beq_self_eq_true _)
    exact inj_on_of_nodup_map hcom.nodup (hadd (hkp fst h1 hnew after ha) hnew)
      (hadd (hkp snd h2 (hn ▸ hnew) after ha) (hn ▸ hnew)) hn
  · intro hag fd hf hnew root hr
    have hoff : ((cat.offersTo kind).find? (·.name == fd.name)).isSome :=
      find?_isSome.mpr ⟨fd, hf, beq_self_eq_true _⟩
    obtain ⟨fst, h1⟩ := Option.isSome_iff_exists.mp hoff
    have heq : fst.name = fd.name := by simpa using find?_some h1
    rw [hag fd hf fst (mem_of_find?_eq_some h1) hnew heq.symm]
    rw [← find?_fields h hr hnew] at h1
    exact mem_of_find?_eq_some h1

end

end Catalog

/-! ## The whole document -/

/-- Only names that are made for different things collide, also in a pass that fails. If the pass
succeeds, what stands under such a name is settled by who owns it and who comes first, and nothing
is lost exactly if definitions of one name agree. -/
theorem Document.settlesNames_of_catalog {settings : Settings} {document : Document} {catalog : Catalog}
    (hplain : ∀ definition ∈ document.typeDefs, Text.startsWith "_" definition.name = false)
    (hcatalog : (Catalog.ofDocument settings document).outcome = .ok catalog) :
    catalog.SeparatesNames ∧ ∀ augmented, catalog.augment.outcome = .ok augmented →
      catalog.SettlesTypes augmented ∧ catalog.SettlesFields augmented := by
  have hsorted := Catalog.isSorted_of_ok hcatalog
  refine ⟨⟨?_, ?_⟩, fun augmented h => ⟨⟨?_, ?_, ?_⟩, ⟨?_, ?_, ?_, ?_⟩⟩⟩
  · intro first hfirst second hsecond hname
    exact Catalog.eq_or_typesCollide hsorted hfirst hsecond hname
  · intro kind first hfirst second hsecond hname
    exact Catalog.eq_or_mutationsCollide hfirst hsecond hname
  · exact Catalog.get?_generated h
  · intro definition hdefinition
    exact Catalog.mem_typeDefs_of_mem_generated hcatalog hplain h hdefinition
  · exact Catalog.registrations_kept_iff hsorted h
  · intro kind field hfield
    obtain ⟨before, after, added, -, hafter, -⟩ := Catalog.exists_root_of_mem_offersTo hfield
    exact ⟨after, hafter⟩
  · intro kind root hroot name hnew
    exact Catalog.find?_fields h hroot hnew
  · intro root hroot hfields
    refine Catalog.mem_typeDefs_of_mem_keptRoots hsorted h (mem_filter.mpr ⟨hroot, ?_⟩)
    simp [hfields]
  · exact Catalog.offers_kept_iff h

/-- Users with friends, and a type that is called like the field with their friends. -/
def friendsDocument : Document :=
  [.object "User" [.idField, .many "friends" "User" [] [.relation "FRIENDS"]],
   .object "UserFriends" [.idField]]

/-- The friends of a user, and nodes called like them: their mutations spell alike. -/
theorem friends_settle_names : ∃ catalog, (Catalog.ofDocument {} friendsDocument).outcome = .ok catalog ∧
    catalog.SeparatesNames ∧ ∃ augmented, catalog.augment.outcome = .ok augmented ∧
      catalog.SettlesTypes augmented ∧ catalog.SettlesFields augmented := by
  obtain ⟨augmented, h⟩ := Run.exists_of_isOk
    (by decide +kernel : (friendsDocument.augment {}).outcome.isOk)
  obtain ⟨catalog, hcatalog, haugment⟩ := Run.bind_ok_iff.mp h
  obtain ⟨hseparates, hsettles⟩ := Document.settlesNames_of_catalog (by decide) hcatalog
  exact ⟨catalog, hcatalog, hseparates, augmented, haugment, hsettles augmented haugment⟩

/-- To merge two friends and to merge a node of the other type are offered under one name. -/
example : ∃ cat, (Catalog.ofDocument {} friendsDocument).outcome = .ok cat ∧
    ∃ first ∈ cat.offersTo .mutation, ∃ second ∈ cat.offersTo .mutation,
      first.name = "MergeUserFriends" ∧ second.name = "MergeUserFriends" ∧
      first.type.base = "UserFriends" ∧
        second.type.base = "_MergeUserFriendsPayload" :=
  Run.exists_of_any (by decide +kernel)

end GraphApi
