import GraphApi.Nested.Parameter
import Mathlib.Tactic.Lemma

/-!
# What the keys of a value tell

The keys of the objects in a value are merged over all items of its lists. A path can be followed in
the merged keys exactly if it can be followed in the value itself, with an object chosen at each
list on the way (`keysOfEntries_spec`).
-/

namespace GraphApi

open List NameMap

namespace Value

variable {part whole value : Value} {outcome : Except Fault α}

/-- The value is the other one or stands somewhere inside it. -/
inductive Within : Value → Value → Prop
  | refl (value : Value) : Within value value
  | item {part item : Value} {items : List Value} (hitem : item ∈ items)
    (hpart : Within part item) : Within part (.list items)
  | entry {part value : Value} {name : Name} {entries : Entries} (hentry : (name, value) ∈ entries)
      (hpart : Within part value) : Within part (.object entries)

lemma Within.trans {middle : Value} (hpr : Within part middle) (hmi : Within middle whole) :
    Within part whole := by
  induction hmi with
  | refl => exact hpr
  | item hi _ ih => exact .item hi ih
  | entry he _ ih => exact .entry he ih

mutual

def parts : Value → List Value
  | .list items => .list items :: itemParts items
  | .object entries => .object entries :: entryParts entries
  | leaf => [leaf]

def itemParts : List Value → List Value
  | [] => []
  | item :: rest => item.parts ++ itemParts rest

def entryParts : Entries → List Value
  | [] => []
  | (_, value) :: rest => value.parts ++ entryParts rest

end

lemma itemParts_eq_flatMap (items : List Value) : itemParts items = items.flatMap parts := by
  induction items with
  | nil => rfl
  | cons item rest ih => simp [itemParts, ih]

lemma entryParts_eq_flatMap (es : Entries) : entryParts es = es.flatMap fun e => e.2.parts := by
  induction es with
  | nil => rfl
  | cons e rest ih => simp [entryParts, ih]

lemma mem_parts_self (value : Value) : value ∈ value.parts := by
  cases value <;> simp [parts]

lemma mem_parts_of_within (h : Within part whole) : part ∈ whole.parts := by
  induction h with
  | refl => exact mem_parts_self _
  | item hi _ ih =>
    rw [parts, itemParts_eq_flatMap]
    exact mem_cons_of_mem _ (mem_flatMap.mpr ⟨_, hi, ih⟩)
  | entry he _ ih =>
    rw [parts, entryParts_eq_flatMap]
    exact mem_cons_of_mem _ (mem_flatMap.mpr ⟨_, he, ih⟩)

/-- No object in the value has two entries of one name. -/
def HasDistinctKeys (value : Value) : Prop :=
  ∀ entries, Within (.object entries) value → (NameMap.keys entries).Nodup

lemma HasDistinctKeys.of_parts (h : ∀ part ∈ value.parts, ∀ es ∈ part.entries?, (keys es).Nodup) :
    value.HasDistinctKeys :=
  fun es hpr => h _ (mem_parts_of_within hpr) es rfl

lemma HasDistinctKeys.item {items : List Value} (hds : HasDistinctKeys (.list items)) {item : Value}
    (hi : item ∈ items) : item.HasDistinctKeys :=
  fun es hpr => hds es (.item hi hpr)

lemma HasDistinctKeys.entry {es : Entries} (hds : HasDistinctKeys (.object es))
    {name : Name} (he : (name, value) ∈ es) : value.HasDistinctKeys :=
  fun inner hpr => hds inner (.entry he hpr)

lemma HasDistinctKeys.tail {e : Name × Value} {rest : Entries}
    (hds : HasDistinctKeys (.object (e :: rest))) : HasDistinctKeys (.object rest) := by
  intro inner hpr
  cases hpr with
  | refl =>
    have hnd := hds _ (.refl _)
    simp only [NameMap.keys, map_cons, nodup_cons] at hnd
    exact hnd.2
  | entry he hin => exact hds inner (.entry (mem_cons_of_mem _ he) hin)

/-- The objects that a value holds: itself, or the items of a list that starts with an object. -/
def objects : Value → List Entries
  | .object entries => [entries]
  | .list (.object entries :: rest) => entries :: rest.filterMap entries?
  | _ => []

end Value

namespace Nested

open Value

variable {keys below source target : NameMap Value} {name : Name} {es : Entries} {value : Value}
  {items : List Value} {α β : Type}

lemma hasDistinctKeys_list (his : ∀ item ∈ items, item.HasDistinctKeys) :
    HasDistinctKeys (.list items) := by
  intro es hpr
  cases hpr with
  | item hi hin => exact his _ hi es hin

lemma hasDistinctKeys_object (hnd : (NameMap.keys es).Nodup)
    (hes : ∀ e ∈ es, e.2.HasDistinctKeys) : HasDistinctKeys (.object es) := by
  intro inner hpr
  cases hpr with
  | refl => exact hnd
  | entry he hin => exact hes _ he inner hin

/-! ## Paths -/

def HasPath : NameMap Value → List Name → Prop
  | _, [] => True
  | keys, name :: rest => ∃ below, keysUnder keys name = some below ∧ HasPath below rest

def CanFollow : Entries → List Name → Prop
  | _, [] => True
  | entries, name :: rest =>
    ∃ value, NameMap.get? entries name = some value ∧ ∃ object ∈ value.objects,
      CanFollow object rest

/-- A map of keys: distinct names, under each of them a map of keys again. -/
inductive IsKeys : NameMap Value → Prop
  | intro {keys : NameMap Value} (hnodup : keys.keys.Nodup)
      (hobject : ∀ name value, keys.get? name = some value → value.isObject)
      (hbelow : ∀ name below, keys.get? name = some (.object below) → IsKeys below) : IsKeys keys

lemma IsKeys.nodup (hks : IsKeys keys) : keys.keys.Nodup := by
  cases hks with
  | intro hnd _ _ => exact hnd

lemma IsKeys.nil : IsKeys [] := by
  refine .intro ?_ ?_ ?_
  · exact nodup_nil
  · intro name value h
    simp at h
  · intro name below h
    simp at h

lemma IsKeys.get?_cases (hks : IsKeys keys) (name : Name) :
    keys.get? name = none ∨ ∃ below, keys.get? name = some (.object below) ∧ IsKeys below := by
  cases hks with
  | intro _ hobj hbe =>
    cases hg : keys.get? name with
    | none => exact .inl rfl
    | some value =>
      have hv := hobj name value hg
      cases value with
      | object below => exact .inr ⟨below, rfl, hbe name below hg⟩
      | _ => cases hv

lemma IsKeys.of_keysUnder (hks : IsKeys keys) (h : keysUnder keys name = some below) :
    IsKeys below := by
  rcases hks.get?_cases name with hno | ⟨inner, hso, hin⟩
  · simp [keysUnder, hno] at h
  · have heq : inner = below := by simpa [keysUnder, hso] using h
    exact heq ▸ hin

/-! ## Merging is a union -/

/-- What stands under a name after merging: the merged value if the source has one, else what was
there. -/
lemma get?_mergeEntries (target : NameMap Value) (hnd : source.keys.Nodup) (name : Name) :
    (mergeEntries target source).get? name = match source.get? name with
      | some value => some (mergeValue (target.get? name) value)
      | none => target.get? name := by
  induction source generalizing target with
  | nil => simp [mergeEntries]
  | cons e rest ih =>
    obtain ⟨key, value⟩ := e
    simp only [NameMap.keys, map_cons, nodup_cons] at hnd
    rw [mergeEntries, ih _ hnd.2]
    by_cases hk : key = name
    · -- the entry at hand is the one of this name, and the rest has no other
      subst hk
      have hr : get? rest key = none := by
        cases hg : get? rest key with
        | none => rfl
        | some old => exact absurd (mem_map_of_mem (mem_of_get? hg)) hnd.1
      simp [hr, get?]
    · simp [get?, hk]

lemma keysUnder_mergeEntries (hta : IsKeys target) (hsrc : IsKeys source) (name : Name) :
    keysUnder (mergeEntries target source) name = match keysUnder target name,
      keysUnder source name with
      | some fst, some snd => some (mergeEntries fst snd)
      | fst, none => fst
      | none, snd => snd := by
  unfold keysUnder
  rw [get?_mergeEntries target hsrc.nodup]
  rcases hsrc.get?_cases name with hs | ⟨snd, hs, _⟩ <;>
    rcases hta.get?_cases name with ht | ⟨fst, ht, _⟩ <;> simp [hs, ht, mergeValue]

lemma nodup_keys_mergeEntries (ht : target.keys.Nodup) (source : NameMap Value) :
    (mergeEntries target source).keys.Nodup := by
  induction source generalizing target with
  | nil => simpa [mergeEntries] using ht
  | cons e rest ih =>
    exact ih (nodup_keys_insert ht _ _)

lemma IsKeys.mergeEntries (hta : IsKeys target) (hsrc : IsKeys source) :
    IsKeys (mergeEntries target source) := by
  induction hsrc generalizing target with
  | @intro source hnd hobj hbe ih =>
    have hsrc : IsKeys source := .intro hnd hobj hbe
    -- under each name stands one of the two values, or both merged
    have hca : ∀ name value, (mergeEntries target source).get? name = some value →
        ∃ below, value = .object below ∧ IsKeys below := by
      intro name value h
      rw [get?_mergeEntries target hnd] at h
      rcases hsrc.get?_cases name with hs | ⟨snd, hs, h2⟩
      · rcases hta.get?_cases name with ht | ⟨fst, ht, h1⟩
        · simp [hs, ht] at h
        · exact ⟨fst, by simpa [hs, ht] using h.symm, h1⟩
      · rcases hta.get?_cases name with ht | ⟨fst, ht, h1⟩
        · exact ⟨snd, by simpa [hs, ht, mergeValue] using h.symm, h2⟩
        · exact ⟨_, by simpa [hs, ht, mergeValue] using h.symm, ih name snd hs h1⟩
    refine .intro (nodup_keys_mergeEntries hta.nodup source) ?_ ?_
    · intro name value h
      obtain ⟨below, rfl, _⟩ := hca name value h
      rfl
    · intro name below h
      obtain ⟨inner, heq, hin⟩ := hca name _ h
      exact (object.inj heq) ▸ hin

lemma hasPath_mergeEntries (hta : IsKeys target) (hsrc : IsKeys source) (path : List Name) :
    HasPath (mergeEntries target source) path ↔ HasPath target path ∨ HasPath source path := by
  induction path generalizing target source with
  | nil => simp [HasPath]
  | cons name rest ih =>
    simp only [HasPath]
    rw [keysUnder_mergeEntries hta hsrc]
    cases ht : keysUnder target name with
    | none => cases hs : keysUnder source name <;> simp
    | some fst =>
      cases hs : keysUnder source name with
      | none => simp
      | some snd => simp [ih (hta.of_keysUnder ht) (hsrc.of_keysUnder hs)]

/-! ## Reading keys off values -/

section Sequence

variable {ε : Type} {fst : Except ε α} {next : α → Except ε β}

lemma bind_eq_ok_iff {res : β} : (fst >>= next) = .ok res ↔ ∃ middle, fst = .ok middle ∧
    next middle = .ok res := by
  cases fst <;> simp [bind, Except.bind]

lemma bind_eq_error_iff {cause : ε} :
    (fst >>= next) = .error cause ↔ fst = .error cause ∨ ∃ middle, fst = .ok middle ∧
      next middle = .error cause := by
  cases fst <;> simp [bind, Except.bind]

end Sequence

lemma hasPath_nil_iff (path : List Name) : HasPath [] path ↔ path = [] := by
  cases path <;> simp [HasPath, keysUnder]

lemma IsKeys.cons (hks : IsKeys keys) (hbe : IsKeys below)
    (hfr : keys.get? name = none) : IsKeys ((name, .object below) :: keys) := by
  have hca : ∀ other value, get? ((name, .object below) :: keys) other = some value →
      ∃ inner, value = .object inner ∧ IsKeys inner := by
    intro other value h
    by_cases hn : name = other
    · exact ⟨below, by simpa [get?, hn] using h.symm, hbe⟩
    · have ho : keys.get? other = some value := by simpa [get?, hn] using h
      rcases hks.get?_cases other with hno | ⟨inner, hso, hin⟩
      · simp [hno] at ho
      · exact ⟨inner, by simpa [hso] using ho.symm, hin⟩
  refine .intro ?_ ?_ ?_
  · simp only [NameMap.keys, map_cons, nodup_cons]
    exact ⟨get?_eq_none_iff.mp hfr, hks.nodup⟩
  · intro other value h
    obtain ⟨inner, rfl, _⟩ := hca other value h
    rfl
  · intro other inner h
    obtain ⟨inner', heq, hin⟩ := hca other _ h
    exact (object.inj heq) ▸ hin

lemma get?_eq_none_of_paths (hks : IsKeys keys)
    (hpa : ∀ path, HasPath keys path ↔ CanFollow es path)
    (hfr : get? es name = none) : keys.get? name = none := by
  rcases hks.get?_cases name with hno | ⟨below, hso, _⟩
  · exact hno
  · have hp : HasPath keys [name] := ⟨below, by simp [keysUnder, hso], trivial⟩
    obtain ⟨value, hv, _⟩ := (hpa [name]).mp hp
    simp [hfr] at hv

lemma hasPath_skip (hpa : ∀ path, HasPath keys path ↔ CanFollow es path)
    (hfr : get? es name = none) (hob : value.objects = []) (path : List Name) :
    HasPath keys path ↔ CanFollow ((name, value) :: es) path := by
  rw [hpa]
  cases path with
  | nil => simp [CanFollow]
  | cons other rest =>
    by_cases hn : name = other
    · subst hn
      simp [CanFollow, get?, hfr, hob]
    · simp [CanFollow, get?, hn]

lemma hasPath_cons (hpa : ∀ path, HasPath keys path ↔ CanFollow es path)
    (hbe : ∀ path, HasPath below path ↔ ∃ object ∈ value.objects, CanFollow object path)
    (path : List Name) :
    HasPath ((name, .object below) :: keys) path ↔ CanFollow ((name, value) :: es) path := by
  cases path with
  | nil => simp [HasPath, CanFollow]
  | cons other rest =>
    by_cases hn : name = other
    · simp [HasPath, CanFollow, keysUnder, get?, hn, hbe]
    · simpa [HasPath, CanFollow, keysUnder, get?, hn] using hpa (other :: rest)

lemma hasPath_mergeItems_step {merged : NameMap Value} (hme : IsKeys merged) (hks : IsKeys keys)
    (hi : ∀ path, HasPath keys path ↔ CanFollow es path) (path : List Name) :
    HasPath (mergeEntries merged keys) path ↔ HasPath merged path ∨ CanFollow es path := by
  rw [hasPath_mergeEntries hme hks, hi]

mutual

lemma keysOfValue_spec (value : Value) (hds : value.HasDistinctKeys) (res : Option (NameMap Value))
    (h : keysOfValue value = .ok res) : (res = none ∧ value.objects = []) ∨
      ∃ keys, res = some keys ∧ IsKeys keys ∧ value.objects ≠ [] ∧
        ∀ path, HasPath keys path ↔ ∃ object ∈ value.objects, CanFollow object path := by
  match value with
  | .null | .bool _ | .int _ | .float _ | .text _ | .list [] =>
    exact .inl ⟨by simpa [keysOfValue, pure, Except.pure] using h.symm, rfl⟩
  | .list (.null :: _) | .list (.bool _ :: _) | .list (.int _ :: _) | .list (.float _ :: _)
  | .list (.text _ :: _) | .list (.list _ :: _) =>
    exact .inl ⟨by simpa [keysOfValue, pure, Except.pure] using h.symm, rfl⟩
  | .object es =>
    rw [keysOfValue, bind_eq_ok_iff] at h
    obtain ⟨keys, hks, ⟨⟩⟩ := h
    obtain ⟨hsh, hpa⟩ := keysOfEntries_spec es hds keys hks
    exact .inr ⟨keys, rfl, hsh, by simp [objects], by simpa [objects] using hpa⟩
  | .list (.object es :: rest) =>
    rw [keysOfValue, bind_eq_ok_iff] at h
    obtain ⟨fst, h1, h⟩ := h
    obtain ⟨keys, hr, ⟨⟩⟩ := bind_eq_ok_iff.mp h
    obtain ⟨hsh, hpa⟩ := keysOfEntries_spec es (hds.item mem_cons_self) fst h1
    have hst := IsKeys.nil.mergeEntries hsh
    obtain ⟨hks, hun⟩ := mergeItems_spec rest (fun item hi => hds.item (mem_cons_of_mem _ hi))
      (mergeEntries [] fst) hst keys hr
    refine .inr ⟨keys, rfl, hks, by simp [objects], fun path => ?_⟩
    rw [hun, hasPath_mergeItems_step IsKeys.nil hsh hpa, hasPath_nil_iff]
    simp only [objects, mem_cons, exists_eq_or_imp]
    -- the empty path is in no map before the first item, but it is in every item
    constructor
    · rintro ((rfl | hes) | hla)
      · exact .inl trivial
      · exact .inl hes
      · exact .inr hla
    · rintro (hes | hla)
      · exact .inl (.inr hes)
      · exact .inr hla

/-- The keys of an object have exactly the paths that can be followed in it. -/
theorem keysOfEntries_spec (es : Entries) (hds : HasDistinctKeys (.object es))
    (keys : NameMap Value) (h : keysOfEntries es = .ok keys) :
    IsKeys keys ∧ ∀ path, HasPath keys path ↔ CanFollow es path := by
  match es with
  | [] =>
    have hks : keys = [] := by simpa [keysOfEntries, pure, Except.pure] using h.symm
    subst hks
    exact ⟨IsKeys.nil, fun path => by cases path <;> simp [HasPath, CanFollow, keysUnder]⟩
  | (name, value) :: rest =>
    rw [keysOfEntries, bind_eq_ok_iff] at h
    obtain ⟨below, hv, h⟩ := h
    obtain ⟨os, hr, hks⟩ := bind_eq_ok_iff.mp h
    have hnd := hds _ (.refl _)
    simp only [NameMap.keys, map_cons, nodup_cons] at hnd
    -- the name is not among the keys of the rest, so its entry hides nothing
    have hos := keysOfEntries_spec rest hds.tail os hr
    have hfr : get? rest name = none := get?_eq_none_iff.mpr hnd.1
    rcases keysOfValue_spec value (hds.entry mem_cons_self) below hv with
      ⟨rfl, hob⟩ | ⟨inner, rfl, hin, _, hpa⟩
    · cases hks
      exact ⟨hos.1, fun path => hasPath_skip hos.2 hfr hob path⟩
    · cases hks
      exact ⟨hos.1.cons hin (get?_eq_none_of_paths hos.1 hos.2 hfr), fun path =>
        hasPath_cons hos.2 hpa path⟩

lemma mergeItems_spec (items : List Value) (hds : ∀ item ∈ items, item.HasDistinctKeys)
    (merged : NameMap Value) (hme : IsKeys merged) (keys : NameMap Value)
    (h : mergeItems merged items = .ok keys) : IsKeys keys ∧
      ∀ path, HasPath keys path ↔ HasPath merged path ∨ ∃ object ∈ items.filterMap entries?,
      CanFollow object path := by
  match items with
  | [] =>
    have hks : merged = keys := by simpa [mergeItems, pure, Except.pure] using h
    exact ⟨hks ▸ hme, by simp [hks]⟩
  | .null :: _ | .bool _ :: _ | .int _ :: _ | .float _ :: _ | .text _ :: _ | .list _ :: _ =>
    cases h
  | .object es :: rest =>
    rw [mergeItems, bind_eq_ok_iff] at h
    obtain ⟨fst, h1, hnx⟩ := h
    obtain ⟨hsh, hpa⟩ := keysOfEntries_spec es (hds _ mem_cons_self) fst h1
    obtain ⟨hks, hun⟩ := mergeItems_spec rest (forall_mem_cons.mp hds).2
      (mergeEntries merged fst) (hme.mergeEntries hsh) keys hnx
    refine ⟨hks, ?_⟩
    intro path
    rw [hun, hasPath_mergeItems_step hme hsh hpa]
    simp [entries?, or_assoc]

end

/-! ## Lists of objects with other items -/

/-- On the way through its objects the value has a list that starts with an object and holds
something else. -/
inductive Stumbles : Value → Prop
  | mixed {first : Entries} {item : Value} {rest : List Value} (hitem : item ∈ rest)
      (hobject : item.isObject = false) : Stumbles (.list (.object first :: rest))
  | item {first : Entries} {item : Value} {rest : List Value} (hitem : item ∈ .object first :: rest)
      (hbelow : Stumbles item) : Stumbles (.list (.object first :: rest))
  | entry {entry : Name × Value} {entries : Entries} (hentry : entry ∈ entries)
      (hbelow : Stumbles entry.2) : Stumbles (.object entries)

def StartsWithObject (items : List Value) : Prop := ∃ entries rest, items = .object entries :: rest

lemma stumbles_object_iff : Stumbles (.object es) ↔ ∃ e ∈ es, Stumbles e.2 := by
  constructor
  · intro h
    cases h with
    | entry he hbe => exact ⟨_, he, hbe⟩
  · rintro ⟨e, he, hbe⟩
    exact .entry he hbe

lemma stumbles_list_iff :
    Stumbles (.list items) ↔ StartsWithObject items ∧ ∃ item ∈ items, item.isObject = false ∨
      Stumbles item := by
  constructor
  · intro h
    cases h with
    | mixed hi hobj => exact ⟨⟨_, _, rfl⟩, _, mem_cons_of_mem _ hi, .inl hobj⟩
    | item hi hbe => exact ⟨⟨_, _, rfl⟩, _, hi, .inr hbe⟩
  · rintro ⟨⟨fst, rest, rfl⟩, item, hi, hobj | hbe⟩
    · rcases mem_cons.mp hi with rfl | hr
      · cases hobj
      · exact .mixed hr hobj
    · exact .item hi hbe

/-- The reading fails for the reason given, and only for it. -/
inductive FailsIf (reason : Prop) : Except Fault α → Prop
  | ok (result : α) (h : ¬ reason) : FailsIf reason (.ok result)
  | error (h : reason) : FailsIf reason (.error .mixedItems)

lemma FailsIf.bind {fst snd : Prop} {next : α → Except Fault β}
    (h1 : FailsIf fst outcome) (hnx : ∀ middle, FailsIf snd (next middle)) :
    FailsIf (fst ∨ snd) (outcome >>= next) := by
  cases h1 with
  | error h => exact .error (.inl h)
  | ok middle h =>
    change FailsIf (fst ∨ snd) (next middle)
    generalize hres : next middle = res
    cases hres ▸ hnx middle with
    | ok res h' => exact .ok res fun hor => hor.elim h h'
    | error h' => exact .error (.inr h')

lemma FailsIf.congr {fst snd : Prop} (h : FailsIf fst outcome) (hiff : fst ↔ snd) :
    FailsIf snd outcome :=
  propext hiff ▸ h

mutual

lemma failsIf_keysOfValue (value : Value) : FailsIf (Stumbles value) (keysOfValue value) := by
  match value with
  | .null | .bool _ | .int _ | .float _ | .text _ | .list [] =>
    · exact .ok none nofun
    all_goals simp
  | .list (.null :: _) | .list (.bool _ :: _) | .list (.int _ :: _) | .list (.float _ :: _)
  | .list (.text _ :: _) | .list (.list _ :: _) =>
    · exact .ok none nofun
    all_goals simp
  | .object es =>
    have hes := (failsIf_keysOfEntries es).bind fun keys => FailsIf.ok (some keys) not_false
    exact hes.congr (by rw [stumbles_object_iff, or_false])
  | .list (.object fst :: rest) =>
    have hr := fun keys => (failsIf_mergeItems (mergeEntries [] keys) rest).bind fun merged =>
      FailsIf.ok (some merged) not_false
    exact ((failsIf_keysOfEntries fst).bind hr).congr
      (by simp [stumbles_list_iff, stumbles_object_iff, StartsWithObject, isObject])

lemma failsIf_keysOfEntries (es : Entries) :
    FailsIf (∃ e ∈ es, Stumbles e.2) (keysOfEntries es) := by
  match es with
  | [] => exact .ok [] (by simp)
  | (name, value) :: rest =>
    have hl (found : Option (NameMap Value)) (os : NameMap Value) : FailsIf False (match found with
          | some ks => (pure ((name, .object ks) :: os) : Except Fault (NameMap Value))
          | none => pure os) := by
      cases found <;> exact .ok _ not_false
    have hr := fun found => (failsIf_keysOfEntries rest).bind (hl found)
    exact ((failsIf_keysOfValue value).bind hr).congr (by simp)

lemma failsIf_mergeItems (merged : NameMap Value) (items : List Value) :
    FailsIf (∃ item ∈ items, item.isObject = false ∨ Stumbles item) (mergeItems merged items) := by
  match items with
  | [] => exact .ok merged (by simp)
  | .null :: _ | .bool _ :: _ | .int _ :: _ | .float _ :: _ | .text _ :: _ | .list _ :: _ =>
    exact .error ⟨_, mem_cons_self, .inl rfl⟩
  | .object es :: rest =>
    have hr := fun keys => failsIf_mergeItems (mergeEntries merged keys) rest
    refine ((failsIf_keysOfEntries es).bind hr).congr ?_
    simp [stumbles_object_iff, isObject]

end

lemma keysOfEntries_cases (es : Entries) :
    (Stumbles (.object es) ∧ keysOfEntries es = .error .mixedItems) ∨
    (¬ Stumbles (.object es) ∧ ∃ keys, keysOfEntries es = .ok keys) := by
  rw [stumbles_object_iff]
  have hfa := failsIf_keysOfEntries es
  generalize keysOfEntries es = outcome at hfa ⊢
  cases hfa with
  | ok keys h => exact .inr ⟨h, keys, rfl⟩
  | error h => exact .inl ⟨h, rfl⟩

end Nested

end GraphApi
