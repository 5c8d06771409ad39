import GraphApi.Proofs.Api.Samples
import GraphApi.Api.Augment
import GraphApi.Proofs.Api.Maps
import Mathlib.Data.List.Forall2

/-!
# What the steps of a pass add up to

A pass reports registrations and offers, and the progress of an augmentation is what they add up to.
Main statements: `Progress.generated_run` for generated types, `Progress.roots_run` for operation
types.
-/

namespace GraphApi

open List Event Pass NameMap

namespace Run

variable {ω ε α β : Type} {step : α → Pass β} {items : List α} {results : List β}

lemma exists_of_isOk {run : Run ω ε α} (h : run.outcome.isOk) : ∃ res, run.outcome = .ok res := by
  cases hrun : run.outcome with
  | ok res => exact ⟨res, rfl⟩
  | error cause => simp [hrun, Except.isOk, Except.toBool] at h

lemma exists_of_any {run : Run ω ε α} {p : α → Prop} [DecidablePred p]
    (h : run.outcome.toOption.any (fun res => decide (p res))) :
    ∃ res, run.outcome = .ok res ∧ p res := by
  cases hrun : run.outcome with
  | ok res => exact ⟨res, rfl, by simpa [hrun, Except.toOption] using h⟩
  | error cause => simp [hrun, Except.toOption] at h

@[simp] lemma fail_outcome (cause : ε) : (fail cause : Run ω ε α).outcome = .error cause := rfl

@[simp] lemma fail_events (cause : ε) : (fail cause : Run ω ε α).events = [] := rfl

@[simp] lemma emit_outcome (event : ω) : (emit event : Run ω ε Unit).outcome = .ok () := rfl

@[simp] lemma emit_events (event : ω) : (emit event : Run ω ε Unit).events = [event] := rfl

@[simp] lemma emitAll_outcome (events : List ω) :
    (emitAll events : Run ω ε Unit).outcome = .ok () := rfl

@[simp] lemma emitAll_events (events : List ω) :
    (emitAll events : Run ω ε Unit).events = events := rfl

@[simp] lemma ofExcept_outcome (outcome : Except ε α) :
    (ofExcept outcome : Run ω ε α).outcome = outcome := rfl

@[simp] lemma ofExcept_events (outcome : Except ε α) :
    (ofExcept outcome : Run ω ε α).events = [] := rfl

end Run

namespace Pass

variable {α β : Type}

def isEffect : Event → Bool
  | .note _ => false
  | .register .. | .offer .. => true

/-- A pass that succeeds with a result and reports the given steps, notices aside. -/
structure Yields (pass : Pass α) (result : α) (effects : List Event) : Prop where
  outcome : pass.outcome = .ok result
  effects : pass.events.filter isEffect = effects

namespace Yields

variable {effects : List Event}

lemma pure (res : α) : Yields (pure res) res [] := ⟨rfl, rfl⟩

lemma note (level : Level) (content : String) : Yields (note level content) () [] := ⟨rfl, rfl⟩

lemma register (defn : TypeDef) : Yields (register defn) () [.register defn false] := ⟨rfl, rfl⟩

lemma registerOwn (defn : TypeDef) :
    Yields (registerOwn defn) () [.register defn true] := ⟨rfl, rfl⟩

lemma registerAll (defns : List TypeDef) :
    Yields (Run.emitAll (defns.map (.register · false))) () (defns.map (.register · false)) :=
  ⟨rfl, filter_eq_self.mpr fun event h => by
    obtain ⟨defn, _, rfl⟩ := mem_map.mp h
    rfl⟩

lemma offer (kind : OperationKind) (fields : List FieldDef) :
    Yields (offer kind fields) () (fields.map (.offer kind)) :=
  ⟨rfl, filter_eq_self.mpr fun event h => by
    obtain ⟨fd, _, rfl⟩ := mem_map.mp h
    rfl⟩

lemma ofExcept {outcome : Except Fault α} {res : α} (h : outcome = .ok res) :
    Yields (Run.ofExcept outcome) res [] := ⟨h, rfl⟩

lemma bind {fst : Pass α} {next : α → Pass β} {middle : α} {res : β} {pre after : List Event}
    (h1 : fst.Yields middle pre) (hnx : (next middle).Yields res after) :
    (fst >>= next).Yields res (pre ++ after) := by
  constructor
  · rw [Run.bind_outcome, h1.outcome]
    exact hnx.outcome
  · rw [Run.bind_events, h1.outcome, filter_append, h1.effects, hnx.effects]

lemma map {fst : Pass α} {middle : α} (h : fst.Yields middle effects) (f : α → β) :
    (fst >>= fun res => Pure.pure (f res)).Yields (f middle) effects := by
  rw [← append_nil effects]
  exact h.bind (.pure _)

lemma eq_of_ok {pass : Pass α} {res other : α} (h : pass.Yields res effects)
    (hok : pass.outcome = .ok other) : other = res := by
  rw [h.outcome] at hok
  exact (Except.ok.inj hok).symm

end Yields

lemma each_ok_iff : (each step items).outcome = .ok results ↔
    Forall₂ (fun item res => (step item).outcome = .ok res) items results := by
  induction items generalizing results with
  | nil => cases results <;> simp [each]
  | cons item rest ih =>
    simp only [each, Run.bind_ok_iff, Run.pure_outcome, Except.ok.injEq, ih]
    constructor
    · rintro ⟨fst, h1, os, hos, rfl⟩
      exact .cons h1 hos
    · rintro (_ | ⟨h1, hos⟩)
      exact ⟨_, h1, _, hos, rfl⟩

/-- A pass that reports steps of a list in order, and that has reported all of them when it succeeds
with a result. -/
structure Traces (pass : Pass α) (result : α) (effects : List Event) : Prop where
  reports : pass.events.filter isEffect <+: effects
  yields : ∀ {outcome}, pass.outcome = .ok outcome → pass.Yields result effects

lemma Yields.traces {pass : Pass α} {res : α} {effects : List Event} (h : pass.Yields res effects) :
    pass.Traces res effects := ⟨h.effects ▸ prefix_rfl, fun _ => h⟩

namespace Traces

variable {effects : List Event} {res : α}

lemma pure (res : α) : Traces (pure res) res [] := (Yields.pure res).traces

lemma check (outcome : Except Fault Unit) : Traces (Run.ofExcept outcome) () [] :=
  .mk nil_prefix Yields.ofExcept

lemma fail (cause : Fault) : Traces (Run.fail cause) res effects := .mk nil_prefix nofun

lemma fail_bind (cause : Fault) (next : β → Pass α) :
    Traces (Run.fail cause >>= next) res effects :=
  .mk nil_prefix nofun

lemma bind {fst : Pass β} {next : β → Pass α} {middle : β} {pre after : List Event}
    (h1 : fst.Traces middle pre) (hnx : (next middle).Traces res after) :
    (fst >>= next).Traces res (pre ++ after) := by
  constructor
  · rw [Run.bind_events, filter_append]
    cases hout : fst.outcome with
    | error cause => simpa using h1.reports.trans (prefix_append _ _)
    | ok found =>
      have hyi := h1.yields hout
      obtain rfl := hyi.eq_of_ok hout
      rw [hyi.effects]
      exact (prefix_append_right_inj pre).mpr hnx.reports
  · intro outcome hok
    obtain ⟨found, hf, hnext⟩ := Run.bind_ok_iff.mp hok
    have hyi := h1.yields hf
    rw [hyi.eq_of_ok hf] at hnext
    exact hyi.bind (hnx.yields hnext)

lemma map {fst : Pass β} {middle : β} (h : fst.Traces middle effects) (f : β → α) :
    (fst >>= fun found => Pure.pure (f found)).Traces (f middle) effects := by
  rw [← append_nil effects]
  exact h.bind (.pure _)

/-- A step for each item traces what the steps trace. -/
lemma each {step : α → Pass β} {items : List α} {result : α → β} {effects : α → List Event}
    (h : ∀ item ∈ items, (step item).Traces (result item) (effects item)) :
    (each step items).Traces (items.map result) (items.flatMap effects) := by
  induction items with
  | nil => exact .pure _
  | cons item rest ih =>
    rw [forall_mem_cons] at h
    exact h.1.bind ((ih h.2).map _)

lemma eachQuiet {step : α → Pass β} {items : List α} {result : α → β}
    (h : ∀ item ∈ items, (step item).Traces (result item) []) :
    (Pass.each step items).Traces (items.map result) [] := by
  have htr := each h
  rwa [flatMap_eq_nil_iff.mpr fun _ _ => rfl] at htr

lemma mem_effects {pass : Pass α} (h : pass.Traces res effects) {event : Event}
    (hev : event ∈ pass.events)
    (hef : isEffect event) : event ∈ effects := h.reports.subset (mem_filter.mpr ⟨hev, hef⟩)

end Traces

/-! ## Types with an API -/

lemma augments_yields (cat : Catalog) (kind : OperationKind) (type : Name) :
    (augments cat kind type).Yields (cat.augments kind type) [] := by
  unfold augments
  split
  · exact (Yields.note _ _).bind (.pure _)
  · exact .pure _

end Pass

/-! ## Fields that are offered -/

namespace RootType

variable {root before after : RootType} {fields added : List FieldDef} {name : Name}

/-- Offers fields to an operation type, one after the other. -/
def addAll (root : RootType) (fields : List FieldDef) : RootType := fields.foldl add root

lemma addAll_concat (root : RootType) (fields : List FieldDef) (fd : FieldDef) :
    root.addAll (fields ++ [fd]) = (root.addAll fields).add fd := foldl_concat ..

lemma has_add (root : RootType) (fd : FieldDef) (name : Name) :
    (root.add fd).has name = (root.has name || fd.name == name) := by
  unfold add
  split
  next hth =>
    by_cases hn : fd.name = name
    · rw [← hn, hth]
      simp
    · simp [hn]
  · simp [has, Bool.or_assoc]

lemma has_addAll (root : RootType) (fields : List FieldDef) (name : Name) :
    (root.addAll fields).has name = (root.has name || fields.any (·.name == name)) := by
  induction fields using reverseRecOn with
  | nil => simp [addAll]
  | append_singleton fields fd ih => simp [addAll_concat, has_add, ih, Bool.or_assoc]

/-- Offering changes nothing if the names are taken. -/
lemma addAll_of_has (h : ∀ fd ∈ fields, root.has fd.name) : root.addAll fields = root := by
  induction fields with
  | nil => rfl
  | cons fd rest ih =>
    rw [addAll, foldl_cons, add, if_pos (h fd mem_cons_self)]
    exact ih fun other ho => h other (mem_cons_of_mem _ ho)

/-- Of the fields of a new name, an operation type takes the first one. -/
lemma find?_addAll (hnew : root.has name = false) (fields : List FieldDef) :
    (root.addAll fields).fields.find? (·.name == name) = fields.find? (·.name == name) := by
  induction fields using reverseRecOn with
  | nil =>
    rw [has, Bool.or_eq_false_iff, any_eq_false] at hnew
    exact find?_eq_none.mpr hnew.2
  | append_singleton fields fd ih =>
    rw [addAll_concat, add, find?_append]
    split
    next hta =>
      rw [ih]
      by_cases hn : fd.name = name
      · -- the name is taken by an earlier offer
        rw [has_addAll, hn, hnew, Bool.false_or, any_eq_true, ← find?_isSome] at hta
        rw [Option.or_of_isSome hta]
      · simp [hn]
    · rw [find?_append, ih]

/-- An operation type to which fields were offered. It has gained fields of new names, each once. -/
structure Gains (before after : RootType) (added : List FieldDef) : Prop where
  definition : after.definition = before.definition
  generated : after.generated = before.generated
  extensionFields : after.extensionFields = before.extensionFields
  fields : after.fields = before.fields ++ added
  fresh : ∀ field ∈ added, before.has field.name = false
  nodup : (added.map (·.name)).Nodup

lemma Gains.has_iff (h : Gains before after added) :
    after.has name ↔ before.has name ∨ name ∈ added.map (·.name) := by
  simp only [has, h.fields, h.extensionFields, any_append, Bool.or_eq_true, any_eq_true, beq_iff_eq,
    mem_map, or_assoc]

/-- What is gained was offered. -/
theorem exists_gains (root : RootType) (fields : List FieldDef) :
    ∃ added ⊆ fields, Gains root (root.addAll fields) added := by
  induction fields using reverseRecOn with
  | nil => exact ⟨[], nil_subset _, rfl, rfl, rfl, (append_nil _).symm, by simp, by simp⟩
  | append_singleton fields fd ih =>
    obtain ⟨added, hsub, h⟩ := ih
    rw [addAll_concat, add]
    split
    · exact ⟨added, subset_append_of_subset_left _ hsub, h⟩
    next hta =>
      have hnew : ¬ (root.has fd.name ∨ fd.name ∈ added.map (·.name)) := mt h.has_iff.mpr hta
      rw [not_or, Bool.not_eq_true] at hnew
      refine ⟨added ++ [fd], append_subset.mpr ⟨subset_append_of_subset_left _ hsub,
        subset_append_right ..⟩, h.definition, h.generated,
        h.extensionFields, by simp [h.fields], ?_, ?_⟩
      · exact forall_mem_append.mpr ⟨h.fresh, by simpa using hnew.1⟩
      · rw [map_append, map_singleton, ← concat_eq_append]
        exact h.nodup.concat hnew.2

lemma Gains.mem_iff (h : Gains root (root.addAll fields) added) {fd : FieldDef} :
    fd ∈ added ↔ root.has fd.name = false ∧ fields.find? (·.name == fd.name) = some fd := by
  have hfind {name : Name} (hnew : root.has name = false) :
      fields.find? (·.name == name) = added.find? (·.name == name) := by
    rw [← find?_addAll hnew, h.fields, find?_append]
    -- none of the fields that were there has the name
    rw [has, Bool.or_eq_false_iff] at hnew
    rw [find?_eq_none.mpr (any_eq_false.mp hnew.2), Option.none_or]
  constructor
  · intro hf
    have hnew := h.fresh fd hf
    refine ⟨hnew, ?_⟩
    rw [hfind hnew]
    cases hg : added.find? (·.name == fd.name) with
    | none => simpa using find?_eq_none.mp hg fd hf
    | some found =>
      have hn : found.name = fd.name := by simpa using find?_some hg
      rw [inj_on_of_nodup_map h.nodup (mem_of_find?_eq_some hg) hf hn]
  · rintro ⟨hnew, hoff⟩
    rw [hfind hnew] at hoff
    exact mem_of_find?_eq_some hoff

end RootType

/-! ## Progress -/

namespace Event

def registration? : Event → Option (TypeDef × Bool)
  | register defn owner => some (defn, owner)
  | note _ | offer .. => none

def offered? (kind : OperationKind) : Event → Option FieldDef
  | offer other field => if other = kind then some field else none
  | note _ | register .. => none

lemma mem_registrations {events : List Event} {e : TypeDef × Bool} :
    e ∈ events.filterMap registration? ↔ register e.1 e.2 ∈ events := by
  rw [mem_filterMap]
  constructor
  · rintro ⟨_ | _ | _, hev, h⟩ <;> cases h
    exact hev
  · exact fun h => ⟨_, h, rfl⟩

lemma mem_offers {events : List Event} {kind : OperationKind} {fd : FieldDef} :
    fd ∈ events.filterMap (offered? kind) ↔ offer kind fd ∈ events := by
  rw [mem_filterMap]
  constructor
  · rintro ⟨_ | _ | _, hev, h⟩
    · cases h
    · cases h
    · obtain ⟨rfl, heq⟩ := Option.ite_none_right_eq_some.mp h
      exact Option.some.inj heq ▸ hev
  · exact fun h => ⟨_, h, if_pos rfl⟩

end Event

namespace Progress

variable {roots : Roots} {events : List Event} {registrations : List (TypeDef × Bool)} {name : Name}
  {generated : NameMap TypeDef} {defn : TypeDef} {owner : Bool} {e : Name × TypeDef}

lemma run_concat (roots : Roots) (events : List Event) (event : Event) :
    run roots (events ++ [event]) = step (run roots events) event := foldl_concat ..

lemma roots_step_offer (progress : Progress) (kind : OperationKind) (fd : FieldDef) :
    (step progress (.offer kind fd)).roots =
      progress.roots.map fun e => if e.1 = kind then (kind, e.2.add fd) else e := by
  unfold step
  dsimp only
  split
  · rfl
  · rename_i hno
    -- there is none of this kind
    refine (map_id _).symm.trans (map_congr_left fun e he => ?_)
    have ho : ¬ e.1 = kind := by
      intro heq
      have hfr := lookup_eq_none_iff.mp hno e he
      simp [heq] at hfr
    rw [if_neg ho, id]

/-- An operation type is offered the fields of its kind. -/
theorem roots_run (roots : Roots) (events : List Event) : (run roots events).roots =
    roots.map fun e => (e.1, e.2.addAll (events.filterMap (offered? e.1))) := by
  induction events using reverseRecOn with
  | nil => exact (map_id roots).symm
  | append_singleton events event ih =>
    rw [run_concat]
    cases event with
    | note notice => simpa [offered?, filterMap_cons, step] using ih
    | register defn owner => simpa [offered?, filterMap_cons, step] using ih
    | offer kind fd =>
      rw [roots_step_offer, ih, map_map]
      refine map_congr_left fun e _ => ?_
      by_cases hk : e.1 = kind
      · simp [offered?, hk, RootType.addAll_concat]
      · simp [offered?, hk, Ne.symm hk]

lemma has_of_offer {kind : OperationKind} {root : RootType} {fd : FieldDef}
    (hr : (kind, root) ∈ (run roots events).roots)
    (h : offer kind fd ∈ events) : root.has fd.name := by
  rw [roots_run] at hr
  obtain ⟨e, -, heq⟩ := mem_map.mp hr
  obtain ⟨rfl, rfl⟩ := Prod.mk.inj heq
  rw [RootType.has_addAll, Bool.or_eq_true, any_eq_true]
  exact .inr ⟨fd, mem_offers.mpr h, beq_self_eq_true _⟩

/-- What an operation type is after some steps: it has the fields that it had and then some of those
offered to it. -/
structure Grows (events : List Event) (before after : OperationKind × RootType) : Prop where
  kind : after.1 = before.1
  definition : after.2.definition = before.2.definition
  generated : after.2.generated = before.2.generated
  extensionFields : after.2.extensionFields = before.2.extensionFields
  fields : ∃ added, after.2.fields = before.2.fields ++ added ∧ ∀ field ∈ added,
    Event.offer before.1 field ∈ events

/-- Every operation type grows by fields that are offered to it. -/
theorem forall₂_roots_run (roots : Roots) (events : List Event) :
    Forall₂ (Grows events) roots (run roots events).roots := by
  rw [roots_run, forall₂_map_right_iff]
  refine forall₂_same.mpr fun e _ => ?_
  obtain ⟨added, hsub, h⟩ := e.2.exists_gains (events.filterMap (offered? e.1))
  exact ⟨rfl, h.definition, h.generated, h.extensionFields, added, h.fields, fun fd hf =>
    mem_offers.mp (hsub hf)⟩

lemma mem_keys_register : name ∈ (register generated defn owner).keys ↔ name ∈ generated.keys ∨
    name = defn.name := by
  unfold register
  split
  next h =>
    have hkn : defn.name ∈ generated.keys := by
      by_contra hnot
      simp [NameMap.contains, get?_eq_none_iff.mpr hnot] at h
    constructor
    · exact .inl
    · rintro (h | rfl)
      · exact h
      · exact hkn
  · rw [NameMap.keys_insert]
    split
    next hkn =>
      constructor
      · exact .inl
      · rintro (h | rfl)
        · exact h
        · exact hkn
    · simp

lemma mem_register (h : e ∈ register generated defn owner) :
    e ∈ generated ∨ e = (defn.name, defn) := by
  unfold register at h
  split at h
  · exact .inl h
  · exact mem_insert h

/-- The generated types after some registrations. -/
def registerAll (registrations : List (TypeDef × Bool)) : NameMap TypeDef :=
  registrations.foldl (fun map e => register map e.1 e.2) []

lemma registerAll_concat (registrations : List (TypeDef × Bool)) (e : TypeDef × Bool) :
    registerAll (registrations ++ [e]) = register (registerAll registrations) e.1 e.2 :=
  foldl_concat ..

/-- The generated types are what the registrations among the steps add up to. -/
theorem generated_run (roots : Roots) (events : List Event) :
    (run roots events).generated = registerAll (events.filterMap registration?) := by
  induction events using reverseRecOn with
  | nil => rfl
  | append_singleton events event ih =>
    rw [run_concat]
    cases event with
    | note notice => simpa [registration?, filterMap_cons, step] using ih
    | register defn owner => simp [registration?, registerAll_concat, step, ih]
    | offer kind fd =>
      simp only [step]
      split <;> simpa [registration?, filterMap_cons] using ih

lemma mem_keys_registerAll : name ∈ (registerAll registrations).keys ↔
    ∃ e ∈ registrations, e.1.name = name := by
  induction registrations using reverseRecOn with
  | nil => simp [registerAll, NameMap.keys]
  | append_singleton registrations e ih =>
    rw [registerAll_concat, mem_keys_register, ih]
    simp [or_and_right, exists_or, eq_comm]

lemma mem_registerAll (h : e ∈ registerAll registrations) :
    e.1 = e.2.name ∧ ∃ owner, (e.2, owner) ∈ registrations := by
  induction registrations using reverseRecOn with
  | nil => cases h
  | append_singleton registrations last ih =>
    rw [registerAll_concat] at h
    rcases mem_register h with h | rfl
    · obtain ⟨hn, owner, hm⟩ := ih h
      exact ⟨hn, owner, mem_append_left _ hm⟩
    · exact ⟨rfl, last.2, by simp⟩

/-- A name is registered once, whoever registers it. -/
lemma nodup_keys_registerAll (registrations : List (TypeDef × Bool)) :
    (registerAll registrations).keys.Nodup := by
  induction registrations using reverseRecOn with
  | nil => exact nodup_nil
  | append_singleton registrations e ih =>
    rw [registerAll_concat, register]
    split
    · exact ih
    · exact nodup_keys_insert ih _ _

end Progress

end GraphApi
