import GraphApi.NameMap
import Mathlib.Data.List.Induction
import Mathlib.Data.List.Nodup

/-!
# Maps built by insertion

What insertion and removal do to the entries of a map. A map that is filled from a list with
distinct names is that list again (`NameMap.ofList_eq_self`).
-/

namespace GraphApi.NameMap

open List

variable {α : Type} {key : Name} {map : NameMap α} {value : α} {e : Name × α} {es : List (Name × α)}

lemma mem_insert (h : e ∈ map.insert key value) : e ∈ map ∨ e = (key, value) := by
  induction map with
  | nil => exact .inr (by simpa [insert] using h)
  | cons head rest ih =>
    unfold insert at h
    split at h
    next hn =>
      rcases mem_cons.mp h with rfl | h
      · exact .inr (by rw [hn])
      · exact .inl (mem_cons_of_mem _ h)
    · rcases mem_cons.mp h with rfl | h
      · exact .inl mem_cons_self
      · exact (ih h).imp_left (mem_cons_of_mem _)

lemma insert_of_not_mem (h : key ∉ map.keys) (value : α) :
    map.insert key value = map ++ [(key, value)] := by
  induction map with
  | nil => rfl
  | cons head rest ih =>
    simp only [keys, map_cons, mem_cons, not_or] at h
    simp [insert, Ne.symm h.1, ih h.2]

lemma mem_keys_of_get? (h : map.get? key = some value) : key ∈ map.keys :=
  mem_map_of_mem (mem_of_get? h)

lemma contains_iff : map.contains key ↔ key ∈ map.keys := by
  rw [contains, Option.isSome_iff_ne_none, Ne, get?_eq_none_iff, not_not]

lemma get?_of_perm {m1 m2 : NameMap α} (hpr : m2.Perm m1) (hnd : m1.keys.Nodup)
    (name : Name) : m2.get? name = m1.get? name := by
  have hks : m2.keys.Perm m1.keys := hpr.map _
  cases hg : m1.get? name with
  | none =>
    rw [get?_eq_none_iff] at hg ⊢
    exact fun hm => hg (hks.mem_iff.mp hm)
  | some value =>
    exact get?_eq_some_of_mem (hks.nodup_iff.mpr hnd) (hpr.mem_iff.mpr (mem_of_get? hg))

/-! ## Maps from lists -/

lemma ofList_concat (es : List (Name × α)) (e : Name × α) :
    ofList (es ++ [e]) = (ofList es).insert e.1 e.2 := by
  simp [ofList]

lemma mem_of_mem_ofList (h : e ∈ ofList es) : e ∈ es := by
  induction es using reverseRecOn with
  | nil => cases h
  | append_singleton es last ih =>
    rw [ofList_concat] at h
    rcases mem_insert h with h | h
    · exact mem_append_left _ (ih h)
    · exact mem_append_right _ (by simp [h])

lemma nodup_keys_ofList (es : List (Name × α)) : (ofList es).keys.Nodup := by
  induction es using reverseRecOn with
  | nil => simp [ofList, keys]
  | append_singleton es last ih =>
    rw [ofList_concat]
    exact nodup_keys_insert ih _ _

/-- A map that is filled from a list with distinct names is that list. -/
theorem ofList_eq_self (h : (es.map (·.1)).Nodup) : ofList es = es := by
  induction es using reverseRecOn with
  | nil => rfl
  | append_singleton es last ih =>
    rw [map_append, nodup_append] at h
    rw [ofList_concat, ih h.1, insert_of_not_mem]
    intro hm
    exact h.2.2 _ hm _ (by simp) rfl

lemma get?_ofList_map (names : List Name) (value : Name → α) (key : Name) :
    (ofList (names.map fun name => (name, value name))).get? key = if key ∈ names
      then some (value key) else none := by
  induction names using reverseRecOn with
  | nil => simp [ofList]
  | append_singleton names last ih =>
    rw [map_append, map_cons, map_nil, ofList_concat, get?_insert, ih]
    by_cases hl : last = key
    · simp [hl]
    · have hk : ¬ key = last := fun h => hl h.symm
      simp [hl, hk]

lemma get?_ofList_of_unique (h : (key, value) ∈ es)
    (hun : ∀ e ∈ es, e.1 = key → e.2 = value) : (ofList es).get? key = some value := by
  induction es using reverseRecOn with
  | nil => simp at h
  | append_singleton es last ih =>
    rw [ofList_concat, get?_insert]
    split
    next hl => exact congrArg some (hun last (by simp) hl)
    next hl =>
      refine ih ?_ fun e he => hun e (mem_append_left _ he)
      rcases mem_append.mp h with h | h
      · exact h
      · exact absurd (congrArg Prod.fst (mem_singleton.mp h)).symm hl

lemma get?_map_name (name : α → Name) (items : List α) (key : Name) :
    get? (items.map fun item => (name item, item)) key = items.find? (name · == key) := by
  simp [get?_eq_find?, Function.comp_def]

/-! ## Removal -/

lemma mem_erase : e ∈ map.erase key ↔ e ∈ map ∧ e.1 ≠ key := by
  simp [erase]

lemma get?_erase (map : NameMap α) (key name : Name) :
    (map.erase key).get? name = if name = key then none else map.get? name := by
  rw [get?_eq_find?, get?_eq_find?, erase, find?_filter]
  split
  next hn => simp [hn]
  next hn =>
    congr 2
    funext e
    by_cases he : e.1 = name <;> simp [he, hn]

lemma get?_erase_of_ne (map : NameMap α) {other : Name} (h : other ≠ key) :
    (map.erase key).get? other = map.get? other := by
  rw [get?_erase, if_neg h]

/-! ## Lists under names -/

lemma perm_insert_concat (map : NameMap (List α)) (key : Name) (item : α) :
    Perm ((map.insert key ((map.get? key).getD [] ++ [item])).flatMap (·.2))
      (map.flatMap (·.2) ++ [item]) := by
  induction map with
  | nil => simp [insert]
  | cons head rest ih =>
    obtain ⟨name, items⟩ := head
    by_cases hn : name = key
    · simp only [insert, get?, hn, if_true, flatMap_cons, Option.getD_some, append_assoc]
      exact Perm.append_left items perm_append_comm
    · simp only [insert, get?, hn, if_false, flatMap_cons, append_assoc]
      exact ih.append_left items

end GraphApi.NameMap
