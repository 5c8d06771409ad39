import GraphApi.Proofs.Nested.Opacity

/-!
# The keys of values as a union

A map of keys is settled, up to the order of its entries, by the paths in it, and the paths in the
keys of a value are those that can be traced in the value. Main statement: `keys_form_deep_union`.
-/

namespace GraphApi

open List NameMap

namespace Value

variable {value : Value} {items os : List Value}

lemma HasUniformLists.list_iff :
    HasUniformLists (.list items) ↔
      ((∀ item ∈ items, item.isObject) ∨ ∀ item ∈ items, item.isObject = false) ∧
      ∀ item ∈ items, item.HasUniformLists := by
  constructor
  · intro h
    exact ⟨h items (.refl _), fun item hi => h.of_within (.item hi (.refl _))⟩
  · rintro ⟨hown, his⟩ inner hin
    cases hin with
    | refl => exact hown
    | item hi hpr => exact his _ hi inner hpr

/-! ## Maps that differ in the order of entries -/

lemma reordered_map {change : Name × Value → Value} {es : Entries}
    (h : ∀ e ∈ es, Reordered e.2 (change e)) (front : Entries) :
    Reordered (.object (front ++ es)) (.object (front ++ es.map fun e => (e.1, change e))) := by
  induction es generalizing front with
  | nil => exact .entries (.refl _)
  | cons e rest ih =>
    have h1 : Reordered (.object (front ++ e :: rest))
        (.object (front ++ (e.1, change e) :: rest)) :=
      .entry (h e mem_cons_self)
    have hr := ih (forall_mem_cons.mp h).2 (front ++ [(e.1, change e)])
    rw [append_assoc, append_assoc] at hr
    exact h1.trans hr

end Value

namespace Nested

open Value

variable {fst snd third keys : NameMap Value} {es : Entries} {path : List Name} {value : Value}
  {items os : List Value}

lemma IsKeys.mem_keys_iff (h : IsKeys keys) {name : Name} :
    name ∈ keys.keys ↔ HasPath keys [name] := by
  rcases h.get?_cases name with hno | ⟨below, hso, -⟩
  · simp [HasPath, keysUnder, hno, get?_eq_none_iff.mp hno]
  · simp [HasPath, keysUnder, hso, mem_keys_of_get? hso]

lemma IsKeys.reordered (h1 : IsKeys fst) (h2 : IsKeys snd)
    (hpa : ∀ path, HasPath fst path ↔ HasPath snd path) :
    Reordered (.object fst) (.object snd) := by
  induction h1 generalizing snd with
  | @intro fst hnd hobj hbe ih =>
    have h1 : IsKeys fst := .intro hnd hobj hbe
    have hks : fst.keys.Perm snd.keys := by
      refine (perm_ext_iff_of_nodup hnd h2.nodup).mpr fun name => ?_
      rw [h1.mem_keys_iff, h2.mem_keys_iff, hpa]
    -- the second map in the order of the first one
    have hpr : (fst.keys.map fun name => (name, (snd.get? name).getD .null)).Perm snd := by
      have hself : snd.keys.map (fun name => (name, (snd.get? name).getD .null)) = snd := by
        rw [NameMap.keys, map_map]
        refine (map_congr_left fun e he => ?_).trans (map_id _)
        simp [get?_eq_some_of_mem h2.nodup he]
      exact (hks.map _).trans (.of_eq hself)
    rw [NameMap.keys, map_map] at hpr
    refine (reordered_map (fun e he => ?_) []).trans (.entries hpr)
    have hg : fst.get? e.1 = some e.2 := get?_eq_some_of_mem hnd he
    rcases h1.get?_cases e.1 with hno | ⟨below, hso, -⟩
    · simp [hno] at hg
    rcases h2.get?_cases e.1 with hno | ⟨other, ho, hot⟩
    · exact absurd (hks.mem_iff.mp (mem_keys_of_get? hg)) (get?_eq_none_iff.mp hno)
    have hin : ∀ path, HasPath below path ↔ HasPath other path := by
      intro path
      simpa [HasPath, keysUnder, hso, ho] using hpa (e.1 :: path)
    rw [← Option.some.inj (hso.symm.trans hg), ho]
    exact ih e.1 below hso hot hin

/-! ## Values that can be traced -/

/-- A way to follow the names: at each step there is an object or a list of objects, with one of
which it goes on. -/
inductive Traces : Entries → List Name → Prop
  | here (object : Entries) : Traces object []
  | step {object next : Entries} {name : Name} {rest : List Name} {value : Value}
      (hvalue : get? object name = some value) (hobjects : value.IsObjects)
      (hnext : value.Gives next) (hrest : Traces next rest) : Traces object (name :: rest)

lemma canFollow_iff_traces (huni : HasUniformLists (.object es)) :
    CanFollow es path ↔ Traces es path := by
  induction path generalizing es with
  | nil => exact ⟨fun _ => .here es, fun _ => trivial⟩
  | cons name rest ih =>
    have hpr {value : Value} (hv : get? es name = some value) : value.HasUniformLists :=
      huni.of_within (.entry (mem_of_get? hv) (.refl _))
    constructor
    · rintro ⟨value, hv, next, hnx, hr⟩
      have hgi := gives_of_mem_objects hnx
      refine .step hv ((isObjects_iff_objects_ne_nil (hpr hv)).mpr (ne_nil_of_mem hnx)) hgi ?_
      exact (ih ((hpr hv).of_within (within_of_gives hgi))).mp hr
    · intro h
      cases h with
      | step hv _ hgi hr =>
        refine ⟨_, hv, _, (gives_iff_mem_objects (hpr hv)).mp hgi, ?_⟩
        exact (ih ((hpr hv).of_within (within_of_gives hgi))).mpr hr

lemma not_stumbles (huni : value.HasUniformLists) : ¬ Stumbles value := by
  intro h
  induction h with
  | mixed hi hobj =>
    rcases huni _ (.refl _) with hall | hno
    · simp [hall _ (mem_cons_of_mem _ hi)] at hobj
    · cases hno _ mem_cons_self
  | item hi _ ih => exact ih (huni.of_within (.item hi (.refl _)))
  | entry he _ ih => exact ih (huni.of_within (.entry he (.refl _)))

lemma exists_keysOfValue (hds : value.HasDistinctKeys) (huni : value.HasUniformLists)
    (hob : value.IsObjects) :
    ∃ keys, keysOfValue value = .ok (some keys) ∧ IsKeys keys ∧ ∀ path, HasPath keys path ↔
      Leads value path := by
  have hfa := failsIf_keysOfValue value
  cases hrd : keysOfValue value with
  | error cause =>
    rw [hrd] at hfa
    cases hfa with
    | error hst => exact absurd hst (not_stumbles huni)
  | ok res =>
    rcases keysOfValue_spec value hds res hrd with ⟨-, hno⟩ | ⟨keys, rfl, hks, -, hpa⟩
    · exact absurd hno ((isObjects_iff_objects_ne_nil huni).mp hob)
    · exact ⟨keys, rfl, hks, hpa⟩

/-- The keys of a list of objects are the union of the keys of its items. -/
lemma exists_keysOfValue_list (hne : items ≠ []) (hob : ∀ item ∈ items, item.isObject)
    (hds : HasDistinctKeys (.list items)) (huni : HasUniformLists (.list items)) :
    ∃ keys, keysOfValue (.list items) = .ok (some keys) ∧ IsKeys keys ∧ ∀ path, HasPath keys path ↔
      ∃ item ∈ items, ∃ own, keysOfValue item = .ok (some own) ∧ HasPath own path := by
  obtain ⟨keys, hrd, hks, hpa⟩ := exists_keysOfValue hds huni (.inr ⟨items, rfl, hne, hob⟩)
  refine ⟨keys, hrd, hks, fun path => ?_⟩
  have hst : StartsWithObject items := by
    obtain ⟨item, rest, rfl⟩ := exists_cons_of_ne_nil hne
    have hi := hob item mem_cons_self
    cases item with
    | object es => exact ⟨es, rest, rfl⟩
    | _ => cases hi
  rw [hpa, leads_list, and_iff_right hst]
  refine exists_congr fun item => and_congr_right fun hi => ?_
  have hit := hob item hi
  cases item with
  | object es =>
    obtain ⟨own, ho, -, how⟩ := exists_keysOfValue (HasDistinctKeys.list_iff.mp hds _ hi)
      ((HasUniformLists.list_iff.mp huni).2 _ hi) (.inl ⟨es, rfl⟩)
    simp [ho, how, hit]
  | _ => cases hit

/-- The keys of a tree of values, in which each list holds only objects or none, are the deep union
of the keys of its objects. For a list of objects they do not depend on the order or the repetition
of its items, and merging keys is idempotent, commutative and associative, up to the order of
entries. -/
theorem keys_form_deep_union :
    (∀ values, HasDistinctKeys (.object values) → HasUniformLists (.object values) →
      ∃ keys, keysOfEntries values = .ok keys ∧ IsKeys keys ∧ ∀ path, HasPath keys path ↔ Traces values path) ∧
    (∀ items, items ≠ [] → (∀ item ∈ items, item.isObject) → HasDistinctKeys (.list items) →
      HasUniformLists (.list items) →
      ∃ keys, keysOfValue (.list items) = .ok (some keys) ∧ IsKeys keys ∧
        (∀ path, HasPath keys path ↔ ∃ item ∈ items, ∃ own, keysOfValue item = .ok (some own) ∧ HasPath own path) ∧
        ∀ others, (∀ item, item ∈ others ↔ item ∈ items) →
          ∃ same, keysOfValue (.list others) = .ok (some same) ∧ Reordered (.object keys) (.object same)) ∧
    ∀ first second third, IsKeys first → IsKeys second → IsKeys third →
      Reordered (.object (mergeEntries first first)) (.object first) ∧
      Reordered (.object (mergeEntries first second)) (.object (mergeEntries second first)) ∧
      Reordered (.object (mergeEntries (mergeEntries first second) third))
        (.object (mergeEntries first (mergeEntries second third))) := by
  refine ⟨?_, ?_, ?_⟩
  · intro values hdistinct huniform
    obtain ⟨-, keys, hread⟩ := (keysOfEntries_cases values).resolve_left fun h =>
      not_stumbles huniform h.1
    obtain ⟨hkeys, hpaths⟩ := keysOfEntries_spec values hdistinct keys hread
    exact ⟨keys, hread, hkeys, fun path => (hpaths path).trans (canFollow_iff_traces huniform)⟩
  · intro items hne hobjects hdistinct huniform
    obtain ⟨keys, hread, hkeys, hpaths⟩ := exists_keysOfValue_list hne hobjects hdistinct huniform
    refine ⟨keys, hread, hkeys, hpaths, fun others hothers => ?_⟩
    obtain ⟨item, hitem⟩ := exists_mem_of_ne_nil items hne
    have hobjects' : ∀ item ∈ others, item.isObject :=
      fun item h => hobjects item ((hothers item).mp h)
    have hdistinct' : HasDistinctKeys (.list others) :=
      HasDistinctKeys.list_iff.mpr fun item h => hdistinct.item ((hothers item).mp h)
    have huniform' : HasUniformLists (.list others) :=
      HasUniformLists.list_iff.mpr ⟨.inl hobjects', fun item h =>
        (HasUniformLists.list_iff.mp huniform).2 item ((hothers item).mp h)⟩
    obtain ⟨same, hsame, hkeys', hpaths'⟩ :=
      exists_keysOfValue_list (ne_nil_of_mem ((hothers item).mpr hitem))
        hobjects' hdistinct' huniform'
    refine ⟨same, hsame, hkeys.reordered hkeys' fun path => ?_⟩
    simp only [hpaths, hpaths', hothers]
  · intro first second third hfirst hsecond hthird
    have hboth := hfirst.mergeEntries hsecond
    have hlast := hsecond.mergeEntries hthird
    refine ⟨(hfirst.mergeEntries hfirst).reordered hfirst fun path => ?_,
      hboth.reordered (hsecond.mergeEntries hfirst) fun path => ?_,
      (hboth.mergeEntries hthird).reordered (hfirst.mergeEntries hlast) fun path => ?_⟩
    · rw [hasPath_mergeEntries hfirst hfirst, or_self]
    · rw [hasPath_mergeEntries hfirst hsecond, hasPath_mergeEntries hsecond hfirst, or_comm]
    · rw [hasPath_mergeEntries hboth hthird, hasPath_mergeEntries hfirst hsecond,
        hasPath_mergeEntries hfirst hlast, hasPath_mergeEntries hsecond hthird, or_assoc]

/-- Two items, in one of which a name leads to an object and in the other to a number. -/
def unlikeItems : List Value :=
  [.object [("b", .object [("c", .object [])])], .object [("b", .int 1), ("d", .list [.object []])]]

/-- Items with unlike keys, once as they are and once repeated in the reverse order. -/
theorem unlikeItems_form_deep_union :
    ∃ keys same, keysOfValue (.list unlikeItems) = .ok (some keys) ∧
      keysOfValue (.list (unlikeItems.reverse ++ unlikeItems)) = .ok (some same) ∧
      Reordered (.object keys) (.object same) := by
  obtain ⟨keys, hread, -, -, hothers⟩ :=
    keys_form_deep_union.2.1 unlikeItems (by decide) (by decide)
    (.of_parts (by decide +kernel)) (.of_parts (by decide +kernel))
  obtain ⟨same, hsame, hreordered⟩ := hothers (unlikeItems.reverse ++ unlikeItems) (by simp)
  exact ⟨keys, same, hread, hsame, hreordered⟩

end Nested

end GraphApi
