/-!
# Maps in order of first insertion

`NameMap α` keeps one entry per inserted name. Inserting a name that is already there replaces the
value and keeps the entry's place, so the keys are always listed in the order in which they first
came.
-/

namespace GraphApi

abbrev Name := String

abbrev NameMap (α : Type) := List (Name × α)

namespace NameMap

variable {α β : Type}

def get? : NameMap α → Name → Option α
  | [], _ => none
  | (name, value) :: rest, key => if name = key then some value else get? rest key

def contains (map : NameMap α) (key : Name) : Bool :=
  (map.get? key).isSome

/-- Puts `value` under `key`, in the place of an earlier entry or at the end. -/
def insert : NameMap α → Name → α → NameMap α
  | [], key, value => [(key, value)]
  | (name, old) :: rest, key, value =>
    if name = key then (name, value) :: rest else (name, old) :: insert rest key value

def erase (map : NameMap α) (key : Name) : NameMap α :=
  map.filter fun entry => entry.1 ≠ key

def keys (map : NameMap α) : List Name :=
  map.map (·.1)

def values (map : NameMap α) : List α :=
  map.map (·.2)

def ofList (entries : List (Name × α)) : NameMap α :=
  entries.foldl (fun map entry => map.insert entry.1 entry.2) []

@[simp] theorem get?_nil (key : Name) : get? ([] : NameMap α) key = none := rfl

@[simp] theorem get?_insert (map : NameMap α) (key other : Name) (value : α) :
    (map.insert key value).get? other = if key = other then some value else map.get? other := by
  induction map with
  | nil => simp [insert, get?]
  | cons entry rest ih =>
    obtain ⟨name, old⟩ := entry
    by_cases hname : name = key
    · subst hname
      by_cases hother : name = other <;> simp [insert, get?, hother]
    · by_cases hother : name = other
      · subst hother
        have hkey : ¬ key = name := fun h => hname h.symm
        simp [insert, get?, hname, hkey]
      · simp [insert, get?, hname, hother, ih]

/-- A new name comes last, and a known one keeps its place. -/
theorem keys_insert (map : NameMap α) (key : Name) (value : α) :
    (map.insert key value).keys = if key ∈ map.keys then map.keys else map.keys ++ [key] := by
  induction map with
  | nil => simp [insert, keys]
  | cons entry rest ih =>
    obtain ⟨name, old⟩ := entry
    by_cases hname : name = key
    · subst hname
      simp [insert, keys]
    · have hkey : ¬ key = name := fun h => hname h.symm
      simp only [keys] at ih
      simp only [insert, hname, keys, List.map_cons, if_false, ih, List.mem_cons, hkey, false_or]
      by_cases hrest : key ∈ List.map (·.1) rest <;> simp [hrest]

/-- Looking a name up finds its first entry. -/
theorem get?_eq_find? (map : NameMap α) (key : Name) :
    map.get? key = (map.find? (·.1 == key)).map (·.2) := by
  induction map with
  | nil => rfl
  | cons entry rest ih => by_cases hname : entry.1 = key <;> simp [get?, hname, ih]

theorem mem_of_get? {map : NameMap α} {key : Name} {value : α} (h : map.get? key = some value) :
    (key, value) ∈ map := by
  rw [get?_eq_find?] at h
  obtain ⟨⟨name, _⟩, hfind, rfl⟩ := Option.map_eq_some_iff.mp h
  obtain rfl : name = key := by simpa using List.find?_some hfind
  exact List.mem_of_find?_eq_some hfind

/-- In a map of distinct names every entry is found. -/
theorem get?_eq_some_of_mem {map : NameMap α} (hnodup : map.keys.Nodup) {key : Name} {value : α}
    (h : (key, value) ∈ map) : map.get? key = some value := by
  induction map with
  | nil => simp at h
  | cons entry rest ih =>
    obtain ⟨name, old⟩ := entry
    simp only [keys, List.map_cons, List.nodup_cons] at hnodup
    rcases List.mem_cons.mp h with heq | hrest
    · obtain ⟨rfl, rfl⟩ := Prod.mk.inj heq
      simp [get?]
    · have hne : name ≠ key := by
        rintro rfl
        exact hnodup.1 (List.mem_map.mpr ⟨_, hrest, rfl⟩)
      simpa [get?, hne] using ih hnodup.2 hrest

theorem get?_eq_none_iff {map : NameMap α} {key : Name} : map.get? key = none ↔ key ∉ map.keys := by
  rw [get?_eq_find?, Option.map_eq_none_iff, List.find?_eq_none, keys, List.mem_map]
  simp only [beq_iff_eq, not_exists, not_and]

theorem nodup_keys_insert {map : NameMap α} (hnodup : map.keys.Nodup) (key : Name) (value : α) :
    (map.insert key value).keys.Nodup := by
  rw [keys_insert]
  split
  · exact hnodup
  · rename_i hkey
    rw [List.nodup_append]
    refine ⟨hnodup, by simp, ?_⟩
    intro name hname other hother
    rw [List.mem_singleton.mp hother]
    rintro rfl
    exact hkey hname

end NameMap

end GraphApi
