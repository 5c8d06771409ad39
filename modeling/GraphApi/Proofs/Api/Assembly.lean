import GraphApi.Proofs.Api.Sorting
import GraphApi.Proofs.Api.TypeGain

/-!
# The parts of an augmented document

An augmentation that succeeds puts together the parts that the passes leave (`Catalog.augment_eq`),
so everything about the augmented document can be said of its parts.
-/

namespace GraphApi

open List Definition Document NameMap Pass Progress

variable {α : Type} {roots : Roots}

/-! ## Small facts about definitions -/

@[simp] lemma TypeDef.withFields_name (defn : TypeDef) (fields : List FieldDef) :
    (defn.withFields fields).name = defn.name := rfl

@[simp] lemma augmentedType_name (cat : Catalog) (defn : TypeDef) :
    (augmentedType cat defn).name = defn.name := by
  unfold augmentedType augmentedNode
  split <;> rfl

@[simp] lemma TypeExt.withFields_name (extn : TypeExt) (fields : List FieldDef) :
    (extn.withFields fields).name = extn.name := rfl

/-- What is seen of registrations and offers is not changed by notices. -/
lemma Pass.filterMap_isEffect {β : Type} {view : Event → Option β}
    (hno : ∀ notice, view (.note notice) = none)
    (events : List Event) : (events.filter isEffect).filterMap view = events.filterMap view := by
  rw [filterMap_filter]
  refine filterMap_congr fun event _ => ?_
  cases event with
  | note notice => simp [isEffect, hno]
  | register defn owner => rfl
  | offer kind fd => rfl

lemma Progress.run_effects (roots : Roots) (events : List Event) :
    (run roots (events.filter isEffect)).generated = (run roots events).generated ∧
      (run roots (events.filter isEffect)).roots = (run roots events).roots := by
  have hof (kind : OperationKind) :=
    filterMap_isEffect (fun _ => rfl : ∀ notice, Event.offered? kind (.note notice) = none) events
  rw [generated_run, generated_run, roots_run, roots_run, filterMap_isEffect fun _ => rfl]
  exact ⟨rfl, by simp only [hof]⟩

lemma Pass.finish_ok_iff {pass : Pass α} {outcome : α × Progress} :
    (pass.finish roots).outcome = .ok outcome ↔
    ∃ res, pass.outcome = .ok res ∧ outcome = (res, run roots pass.events) := by
  unfold finish
  cases pass.outcome <;> simp [Except.map, eq_comm]

lemma Pass.Yields.finish_ok {pass : Pass α} {res : α} {effects : List Event}
    {outcome : α × Progress}
    (hyi : Yields pass res effects) (h : (pass.finish roots).outcome = .ok outcome) :
    outcome.1 = res ∧ outcome.2.generated = (run roots effects).generated ∧
      outcome.2.roots = (run roots effects).roots := by
  rw [finish, hyi.outcome] at h
  obtain rfl := Except.ok.inj h
  rw [← hyi.effects]
  obtain ⟨hgen, hrs⟩ := run_effects roots pass.events
  exact ⟨rfl, hgen.symm, hrs.symm⟩

namespace Catalog

variable {cat : Catalog}

/-! ## Extensions -/

def augmentedExt (cat : Catalog) (extn : TypeExt) : TypeExt :=
  match (cat.types.get? extn.name).filter TypeDef.isNode with
  | some defn => augmentedExtension cat defn extn
  | none =>
    if (cat.operationOf? extn.name).isSome then augmentedRootExtension cat extn else extn

@[simp] lemma augmentedExt_name (cat : Catalog) (extn : TypeExt) :
    (cat.augmentedExt extn).name = extn.name := by
  unfold augmentedExt augmentedExtension augmentedRootExtension
  split
  · rfl
  · split <;> rfl

lemma operationOf?_isSome_iff {name : Name} :
    (cat.operationOf? name).isSome ↔ name ∈ cat.roots.map (·.2.name) := by
  rw [operationOf?, Option.isSome_map, find?_isSome, mem_map]
  simp

lemma get?_augmentedExtensions (cat : Catalog) (defns : List TypeDef)
    (start : NameMap (List TypeExt))
    (hnd : (defns.map (·.name)).Nodup) (name : Name) : ((defns.map fun defn =>
        (augmentedType cat defn, augmentedExtensions? cat defn)).foldl (fun map outcome =>
      match outcome.2 with
      | some exts => map.insert outcome.1.name exts
      | none => map) start).get? name =
    (((defns.find? (·.name == name)).bind (augmentedExtensions? cat)).or (start.get? name)) := by
  induction defns generalizing start with
  | nil => simp
  | cons defn rest ih =>
    rw [map_cons, nodup_cons] at hnd
    rw [map_cons, foldl_cons, ih _ hnd.2]
    by_cases hn : defn.name = name
    · have hr : rest.find? (·.name == name) = none := by
        rw [find?_eq_none]
        intro other ho heq
        exact hnd.1 (mem_map.mpr ⟨other, ho, by simpa [hn] using heq⟩)
      rw [hr]
      cases hxs : augmentedExtensions? cat defn <;> simp [find?, hn, hxs]
    · have hkp : (match augmentedExtensions? cat defn with
          | some exts => start.insert (augmentedType cat defn).name exts
          | none => start).get? name = start.get? name := by
        split <;> simp [hn]
      simp only [find?, show (defn.name == name) = false by simpa using hn]
      rw [hkp]

lemma IsSorted.types_eq (hs : cat.IsSorted) :
    cat.types = cat.types.values.map fun defn => (defn.name, defn) := by
  rw [values, map_map]
  refine (map_id _).symm.trans (map_congr_left fun e he => ?_)
  rw [Function.comp_apply, hs.nameOfType e he, id]

lemma IsSorted.nodupNames (hs : cat.IsSorted) : (cat.types.values.map (·.name)).Nodup := by
  have hks := hs.nodupTypes
  rwa [hs.types_eq, NameMap.keys, map_map] at hks

lemma find?_values_eq_get? (hs : cat.IsSorted) (name : Name) :
    cat.types.values.find? (·.name == name) = cat.types.get? name := by
  rw [← get?_map_name, ← hs.types_eq]

lemma mergeExtensions_eq (hs : cat.IsSorted) :
    mergeExtensions cat.extensions ((cat.types.values.map fun defn =>
        (augmentedType cat defn, augmentedExtensions? cat defn)).foldl (fun map outcome =>
      match outcome.2 with
      | some exts => map.insert outcome.1.name exts
      | none => map) (rootExtensions cat)) =
    cat.extensions.flatMap fun e => e.2.map cat.augmentedExt := by
  refine flatMap_congr fun e he => ?_
  have hn := hs.nameOfExtension e he
  have hown : cat.extensionsOf e.1 = e.2 := by
    rw [extensionsOf, get?_eq_some_of_mem hs.nodupExtensions he, Option.getD_some]
  have hr : (rootExtensions cat).get? e.1 =
      if e.1 ∈ cat.roots.map (·.2.name) then some (e.2.map (augmentedRootExtension cat))
        else none := by
    have hmap := get?_ofList_map (cat.roots.map (·.2.name))
      (fun name => (cat.extensionsOf name).map (augmentedRootExtension cat)) e.1
    rwa [map_map, hown] at hmap
  rw [get?_augmentedExtensions cat _ _ hs.nodupNames, find?_values_eq_get? hs, hr]
  -- all extensions of the entry have its name, so they are augmented in the same way
  have heq (one : TypeExt → TypeExt) (h : ∀ extn ∈ e.2, cat.augmentedExt extn = one extn) :
      e.2.map one = e.2.map cat.augmentedExt :=
    map_congr_left fun extn hx => (h extn hx).symm
  cases hno : (cat.types.get? e.1).filter TypeDef.isNode with
  | some defn =>
    obtain ⟨hg, hin⟩ := Option.filter_eq_some_iff.mp hno
    have hd : defn.name = e.1 := hs.nameOfType _ (mem_of_get? hg)
    simp only [hg, Option.bind_some, augmentedExtensions?, hin, if_true, Option.some_or,
      Option.getD_some, hd, hown]
    refine heq _ fun extn hx => ?_
    rw [augmentedExt, hn extn hx, hno]
  | none =>
    have hnn : (cat.types.get? e.1).bind (augmentedExtensions? cat) = none := by
      cases hg : cat.types.get? e.1 with
      | none => rfl
      | some defn => simpa [hg, Option.filter, augmentedExtensions?] using hno
    rw [hnn, Option.none_or]
    by_cases hm : e.1 ∈ cat.roots.map (·.2.name)
    · rw [if_pos hm, Option.getD_some]
      refine heq _ fun extn hx => ?_
      rw [augmentedExt, hn extn hx, hno]
      exact if_pos (operationOf?_isSome_iff.mpr hm)
    · rw [if_neg hm, Option.getD_none]
      refine (map_id _).symm.trans (heq id fun extn hx => ?_)
      rw [augmentedExt, hn extn hx, hno]
      exact if_neg (mt operationOf?_isSome_iff.mp hm)

/-! ## Parts -/

/-- The steps that an augmentation takes, notices aside. -/
def effects (cat : Catalog) : List Event :=
  cat.types.values.flatMap (typeEffects cat)

def progress (cat : Catalog) : Progress :=
  Progress.run (cat.roots.map fun entry => (entry.1, augmentedRoot cat entry.2)) cat.effects

def generated (cat : Catalog) : NameMap TypeDef :=
  completeGenerated cat cat.progress.generated

def parts (cat : Catalog) (directives : List DirectiveDef) : Parts where
  directives
  schema := cat.schema.map (completeSchema cat.progress.roots)
  types := cat.types.values.map (augmentedType cat)
  roots := (keptRoots cat.progress.roots).map (·.2.build)
  generated := keptTypes cat.types cat.generated
  extensions := cat.extensions.flatMap fun entry => entry.2.map cat.augmentedExt
  others := cat.others

/-- An augmented document is put together from the parts that the passes leave. -/
theorem augment_eq {doc : Document} (hs : cat.IsSorted) (h : cat.augment.outcome = .ok doc) :
    ∃ dirs, (directiveDefinitions cat.types cat.directives cat.settings).outcome = .ok dirs ∧
      doc = (cat.parts dirs.values).document cat.settings := by
  obtain ⟨⟨⟨roots, exts⟩, _⟩, hrs, har⟩ := Run.bind_ok_iff.mp h
  obtain ⟨⟨outcomes, progress⟩, hts, hat⟩ := Run.bind_ok_iff.mp har
  obtain ⟨dirs, hdr, had⟩ := Run.bind_ok_iff.mp hat
  obtain ⟨_, _, hsu⟩ := Run.bind_ok_iff.mp had
  obtain ⟨_, _, hdoc⟩ := Run.bind_ok_iff.mp hsu
  obtain ⟨_, hrp, _⟩ := finish_ok_iff.mp hrs
  obtain ⟨_, htp, _⟩ := finish_ok_iff.mp hts
  obtain ⟨hre, -⟩ := ((augmentRoots_traces cat).yields hrp).finish_ok hrs
  obtain ⟨hrt, hrex⟩ := Prod.mk.inj hre
  obtain ⟨hou, hgen, hpr⟩ := ((augmentTypes_traces cat).yields htp).finish_ok hts
  refine ⟨dirs, hdr, (Except.ok.inj hdoc).symm.trans ?_⟩
  dsimp only at hou hgen hpr
  unfold parts
  rw [← mergeExtensions_eq hs, hou, hrex, hgen, hpr, hrt, map_map]
  rfl

end Catalog

/-! ## Views of the document -/

def TypeDef.retarget (cfg : Settings) (defn : TypeDef) : TypeDef :=
  { defn with body := defn.body.retarget cfg }

def TypeExt.retarget (cfg : Settings) (extn : TypeExt) : TypeExt :=
  { extn with body := extn.body.retarget cfg }

def DirectiveDef.retarget (cfg : Settings) (defn : DirectiveDef) : DirectiveDef :=
  { defn with arguments := defn.arguments.map (·.retarget cfg) }

/-- The scalars for the temporal and spatial kinds that stay. -/
def Parts.scalars (cfg : Settings) (parts : Parts) : List TypeDef :=
  undeclaredScalars (parts.body.map (·.retarget cfg) ++ parts.tail.map (·.retarget cfg))

variable (cfg : Settings)

@[simp] lemma Definition.retarget_type (defn : TypeDef) :
    (type defn).retarget cfg = .type (defn.retarget cfg) := rfl

@[simp] lemma Definition.retarget_typeExt (extn : TypeExt) :
    (typeExt extn).retarget cfg = .typeExt (extn.retarget cfg) := rfl

@[simp] lemma Definition.retarget_directive (defn : DirectiveDef) :
    (directive defn).retarget cfg = .directive (defn.retarget cfg) := rfl

@[simp] lemma Definition.retarget_schema (defn : SchemaDef) :
    (schema defn).retarget cfg = .schema defn := rfl

lemma Parts.name_not_mem_scalars {parts : Parts} {name : Name}
    (h : name ∈ (parts.types ++ parts.roots ++ parts.generated).map (·.name)) :
    name ∉ (parts.scalars cfg).map (·.name) := by
  intro hsc
  obtain ⟨defn, hd, rfl⟩ := mem_map.mp h
  obtain ⟨_, hsc, hn⟩ := mem_map.mp hsc
  obtain ⟨kind, hk, rfl⟩ := mem_map.mp hsc
  have hund := (mem_filter.mp hk).2
  simp only [Bool.and_eq_true, Bool.not_eq_true', contains_eq_mem, decide_eq_false_iff_not,
    mem_filterMap, not_exists, not_and] at hund
  refine hund.2 (.type (defn.retarget cfg)) (mem_append_left _ ?_) (congrArg some hn.symm)
  refine mem_map.mpr ⟨.type defn, ?_, rfl⟩
  simp only [mem_append] at hd
  simp only [body, mem_append, mem_map]
  rcases hd with (h | h) | h
  · exact .inl (.inl (.inr ⟨defn, h, rfl⟩))
  · exact .inl (.inr ⟨defn, h, rfl⟩)
  · exact .inr ⟨defn, h, rfl⟩

section Views

variable {parts : Parts} (hos : ∀ other ∈ parts.others, other.isOther)
include hos

lemma Parts.document_eq : parts.document cfg =
    parts.directives.map (fun defn => .directive (defn.retarget cfg)) ++
    parts.schema.toList.map .schema ++
    (parts.types ++ parts.roots ++ parts.generated).map (fun defn => .type (defn.retarget cfg)) ++
    (parts.scalars cfg).map .type ++
    parts.extensions.map (fun extn => .typeExt (extn.retarget cfg)) ++ parts.others := by
  have hkp : parts.others.map (retarget cfg) = parts.others := by
    refine (map_congr_left fun other ho => ?_).trans (map_id _)
    have h := hos other ho
    cases other <;> first | rfl | cases h
  unfold document scalars
  cases hsc : parts.schema <;>
    simp [body, tail, hkp, hsc, Function.comp_def]

lemma filterMap_others {view : Definition → Option α}
    (hvi : ∀ defn, defn.isOther → view defn = none := by
      rintro (_ | _ | _ | _ | _ | _ | _) <;> simp [isOther]) : parts.others.filterMap view = [] :=
  filterMap_eq_nil_iff.mpr fun other ho => hvi other (hos other ho)

lemma Parts.typeDefs_document : typeDefs (parts.document cfg) =
    (parts.types ++ parts.roots ++ parts.generated).map (·.retarget cfg) ++ parts.scalars cfg := by
  rw [document_eq cfg hos, typeDefs, filterMap_append, filterMap_others hos]
  simp [filterMap_append, filterMap_map]

lemma Parts.typeExts_document : typeExts (parts.document cfg) =
    parts.extensions.map (·.retarget cfg) := by
  rw [document_eq cfg hos, typeExts, filterMap_append, filterMap_others hos]
  simp [filterMap_append, filterMap_map]

lemma Parts.directiveDefs_document :
    directiveDefs (parts.document cfg) = parts.directives.map (·.retarget cfg) := by
  rw [document_eq cfg hos, directiveDefs, filterMap_append, filterMap_others hos]
  simp [filterMap_append, filterMap_map]

lemma Parts.schemaDefs_document : schemaDefs (parts.document cfg) = parts.schema.toList := by
  rw [document_eq cfg hos, schemaDefs, filterMap_append, filterMap_others hos]
  simp [filterMap_append, filterMap_map]

lemma Parts.others_document : (parts.document cfg).filter isOther = parts.others := by
  rw [document_eq cfg hos, filter_append, filter_eq_self.mpr hos]
  simp [filter_map, Function.comp_def, isOther]

end Views

end GraphApi
