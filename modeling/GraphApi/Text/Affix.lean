/-!
# Starts and ends of texts
-/

namespace GraphApi.Text

def dropStart? (start text : String) : Option String :=
  if start.toList.isPrefixOf text.toList
    then some (String.ofList (text.toList.drop start.toList.length)) else none

def dropEnd? (ending text : String) : Option String :=
  if ending.toList.isSuffixOf text.toList then
    some (String.ofList (text.toList.take (text.toList.length - ending.toList.length)))
  else none

def startsWith (start text : String) : Bool :=
  start.toList.isPrefixOf text.toList

theorem eq_append_of_dropStart? {start text rest : String} (h : dropStart? start text = some rest) :
    text = start ++ rest := by
  unfold dropStart? at h
  split at h
  · rename_i hstart
    obtain ⟨after, hafter⟩ := List.isPrefixOf_iff_prefix.mp hstart
    rw [← Option.some.inj h, ← String.toList_inj, ← hafter]
    simp
  · cases h

/-- Dropping an ending undoes appending it. -/
theorem dropEnd?_eq_some_iff {ending text rest : String} :
    dropEnd? ending text = some rest ↔ text = rest ++ ending := by
  unfold dropEnd?
  constructor
  · intro h
    split at h
    · rename_i hend
      obtain ⟨before, hbefore⟩ := List.isSuffixOf_iff_suffix.mp hend
      rw [← Option.some.inj h, ← String.toList_inj, ← hbefore]
      simp
    · cases h
  · rintro rfl
    simp [List.isSuffixOf_iff_suffix]

/-- Of two ways to cut a text in two, one comes first. -/
theorem append_eq_append_cases {first second ending other : String}
    (h : first ++ ending = second ++ other) :
    (∃ mid, second = first ++ mid ∧ ending = mid ++ other) ∨ ∃ mid, first = second ++ mid ∧
      other = mid ++ ending := by
  simp only [← String.toList_inj, String.toList_append] at h ⊢
  rcases List.append_eq_append_iff.mp h with ⟨mid, h1, h2⟩ | ⟨mid, h1, h2⟩
  · exact .inl ⟨String.ofList mid, by simpa using h1, by simpa using h2⟩
  · exact .inr ⟨String.ofList mid, by simpa using h1, by simpa using h2⟩

end GraphApi.Text
