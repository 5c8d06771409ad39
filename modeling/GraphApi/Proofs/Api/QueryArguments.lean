import GraphApi.Api.Filter
import Mathlib.Data.List.Nodup

/-!
# Arguments that page, order and filter

The arguments of a field that returns nodes are set by name: a bound of a page is kept if it is
declared, an ordering or a filter takes the place of a declared one, and what is not declared comes
last. Main statement: `setsArguments_queryArguments`.
-/

namespace GraphApi

open List

variable {args : List ArgumentDef} {arg : ArgumentDef} {build : Name → ArgumentDef}
  {name : Option Name} {own : Name}

/-- The first argument of a name. -/
def argumentNamed? (arguments : List ArgumentDef) (name : Name) : Option ArgumentDef :=
  arguments.find? (·.name == name)

/-- A list of arguments has the bounds of a page and the ordering on a list, and the filter. -/
structure HasQueryArguments (isList : Bool) (ordering filter : Option Name)
    (arguments : List ArgumentDef) : Prop where
  page : isList → ∀ bound ∈ pageArguments, bound.name ∈ arguments.map (·.name)
  ordering : isList → ∀ given, ordering = some given → given ≠ "" →
    argumentNamed? arguments "orderBy" = some (orderingArgument given)
  filter : ∀ given, filter = some given → given ≠ "" → argumentNamed? arguments "filter" =
    some (filterArgument given)

/-! ## One argument -/

/-- No argument is found under a name that none has. -/
lemma argumentNamed_eq_none (h : own ∉ args.map (·.name)) : argumentNamed? args own = none := by
  rw [argumentNamed?, find?_eq_none]
  intro arg harg heq
  exact h (beq_iff_eq.mp heq ▸ mem_map_of_mem harg)

lemma argumentNamed_append (fst snd : List ArgumentDef) (own : Name) :
    argumentNamed? (fst ++ snd) own = (argumentNamed? fst own).or (argumentNamed? snd own) :=
  find?_append

lemma argumentNamed_cons (fst : ArgumentDef) (rest : List ArgumentDef) (own : Name) :
    argumentNamed? (fst :: rest) own = if fst.name = own then some fst
      else argumentNamed? rest own := by
  by_cases h : fst.name = own <;> simp [argumentNamed?, h]

section Upsert

variable (args : List ArgumentDef) (repl : ArgumentDef)

/-- Without replacements the arguments stay as they are. -/
lemma upsertInto_nil : upsertInto [] args = args := by
  induction args with
  | nil => rfl
  | cons fst rest ih => simp [upsertInto, NameMap.get?, ih]

/-- One replacement goes where the first argument of its name stands. -/
lemma upsertArguments_cons (fst : ArgumentDef) : upsertArguments (fst :: args) [repl] =
    if repl.name = fst.name then repl :: args else fst :: upsertArguments args [repl] := by
  unfold upsertArguments
  by_cases hn : repl.name = fst.name
  · simp [upsertInto, NameMap.ofList, NameMap.insert, NameMap.get?, NameMap.erase, hn,
      upsertInto_nil]
  · simp [upsertInto, NameMap.ofList, NameMap.insert, NameMap.get?, hn]

/-- A replacement comes last, or in the place of the first argument of its name. -/
lemma upsertArguments_cases : (repl.name ∉ args.map (·.name) ∧
    upsertArguments args [repl] = args ++ [repl]) ∨
    ∃ front old back, args = front ++ old :: back ∧ old.name = repl.name ∧
    repl.name ∉ front.map (·.name) ∧ upsertArguments args [repl] = front ++ repl :: back := by
  induction args with
  | nil => exact .inl ⟨not_mem_nil, rfl⟩
  | cons fst rest ih =>
    rw [upsertArguments_cons]
    by_cases hn : repl.name = fst.name
    · exact .inr ⟨[], fst, rest, rfl, hn.symm, not_mem_nil, if_pos hn⟩
    · rw [if_neg hn]
      rcases ih with ⟨hnew, heq⟩ | ⟨front, old, back, rfl, ho, hnew, heq⟩
      · exact .inl ⟨by simpa [hn] using hnew, by rw [heq, cons_append]⟩
      · exact .inr ⟨fst :: front, old, back, rfl, ho,
          by simpa [hn] using hnew, by rw [heq, cons_append]⟩

/-- A replacement adds its name at the end unless an argument has it. -/
lemma names_upsertArguments : (upsertArguments args [repl]).map (·.name) =
    if repl.name ∈ args.map (·.name) then args.map (·.name)
    else args.map (·.name) ++ [repl.name] := by
  rcases upsertArguments_cases args repl with ⟨hnew, heq⟩ | ⟨front, old, back, rfl, ho, -, heq⟩
  · rw [heq, if_neg hnew, map_append, map_singleton]
  · simp [heq, ho]

/-- Under the name of the replacement stands the replacement, and other names are not touched. -/
lemma argumentNamed_upsertArguments (own : Name) :
    argumentNamed? (upsertArguments args [repl]) own =
    if repl.name = own then some repl else argumentNamed? args own := by
  rcases upsertArguments_cases args repl with ⟨hnew, heq⟩ | ⟨front, old, back, rfl, ho, hnew, heq⟩
  all_goals
    rw [heq, argumentNamed_append, argumentNamed_cons]
    split
    next hn => rw [argumentNamed_eq_none (hn ▸ hnew), Option.none_or]
  · exact Option.or_none
  next hn => rw [argumentNamed_append, argumentNamed_cons, ho, if_neg hn]

end Upsert

/-- Setting does nothing unless a name is given that is not empty. -/
lemma setArgument_cases (build : Name → ArgumentDef) (name : Option Name)
    (args : List ArgumentDef) :
    (setArgument build name args = args ∧ ∀ given, name = some given → given = "") ∨
      ∃ given, name = some given ∧ given ≠ "" ∧
      setArgument build name args = upsertArguments args [build given] := by
  cases name with
  | none => exact .inl ⟨rfl, nofun⟩
  | some given =>
    by_cases hg : given = ""
    · exact .inl ⟨if_pos hg, fun _ h => Option.some.inj h ▸ hg⟩
    · exact .inr ⟨given, rfl, hg, if_neg hg⟩

/-- Declared names stay in their order, and a new one comes after them. -/
lemma names_prefix_setArgument (build : Name → ArgumentDef) (name : Option Name)
    (args : List ArgumentDef) :
    args.map (·.name) <+: (setArgument build name args).map (·.name) := by
  rcases setArgument_cases build name args with ⟨heq, -⟩ | ⟨given, -, -, heq⟩
  · exact ⟨[], by rw [heq, append_nil]⟩
  · rw [heq, names_upsertArguments]
    split
    · exact prefix_rfl
    · exact prefix_append _ _

lemma mem_names_setArgument : own ∈ (setArgument build name args).map (·.name) ↔
    own ∈ args.map (·.name) ∨ ∃ given, name = some given ∧ given ≠ "" ∧
    own = (build given).name := by
  rcases setArgument_cases build name args with ⟨heq, hno⟩ | ⟨given, rfl, hg, heq⟩ <;> rw [heq]
  · exact ⟨.inl, fun h => h.resolve_right fun ⟨given, hso, hne, _⟩ => hne (hno given hso)⟩
  · rw [names_upsertArguments]
    split
    next hold => simpa [hg] using fun h : own = (build given).name => by simpa [h] using hold
    · simp [hg]

lemma nodup_names_setArgument (h : (args.map (·.name)).Nodup) (name : Option Name) :
    ((setArgument build name args).map (·.name)).Nodup := by
  rcases setArgument_cases build name args with ⟨heq, -⟩ | ⟨given, -, -, heq⟩ <;> rw [heq]
  · exact h
  · rw [names_upsertArguments]
    split
    · exact h
    next hnew => exact h.append (nodup_singleton _) (by simpa using hnew)

/-- Nothing but the argument that is set is new. -/
lemma mem_setArgument (h : arg ∈ setArgument build name args) :
    arg ∈ args ∨ ∃ given, name = some given ∧ arg = build given := by
  rcases setArgument_cases build name args with ⟨heq, -⟩ | ⟨given, hg, -, heq⟩ <;> rw [heq] at h
  · exact .inl h
  · have hor : arg ∈ args ∨ arg = build given := by
      rcases upsertArguments_cases args (build given) with ⟨-, heq⟩ | ⟨front, old, back, rfl,
        -, -, heq⟩ <;>
        rw [heq] at h <;> simp only [mem_append, mem_cons, not_mem_nil, or_false] at h ⊢ <;> tauto
    exact hor.imp_right fun heq => ⟨given, hg, heq⟩

/-- The argument that is set is there. -/
lemma mem_setArgument_of_ne {given : Name} (h : given ≠ "") (args : List ArgumentDef) :
    build given ∈ setArgument build (some given) args := by
  simp only [setArgument, h, if_false]
  rcases upsertArguments_cases args (build given) with ⟨-, heq⟩ | ⟨_, _, _, -, -, -, heq⟩ <;>
    simp [heq]

/-- Whatever passes a test that the set argument fails is kept in its order. -/
lemma filter_setArgument (keeps : Name → Bool)
    (h : ∀ given, name = some given → keeps (build given).name = false) (args : List ArgumentDef) :
    (setArgument build name args).filter (fun arg => keeps arg.name) = args.filter fun arg =>
      keeps arg.name := by
  rcases setArgument_cases build name args with ⟨heq, -⟩ | ⟨given, hg, -, heq⟩ <;> rw [heq]
  have hno := h given hg
  rcases upsertArguments_cases args (build given) with ⟨-, heq⟩ | ⟨front, old, back,
    rfl, ho, -, heq⟩
  · simp [heq, hno]
  · simp [heq, hno, ho]

/-- An argument of another name stays. -/
lemma mem_setArgument_of_mem (h : arg ∈ args)
    (hn : ∀ given, name = some given → arg.name ≠ (build given).name) :
    arg ∈ setArgument build name args := by
  have hfi := filter_setArgument (· == arg.name) (fun given hg =>
    beq_eq_false_iff_ne.mpr (hn given hg).symm) args
  have hm : arg ∈ args.filter fun other => other.name == arg.name :=
    mem_filter.mpr ⟨h, beq_self_eq_true _⟩
  rw [← hfi] at hm
  exact (mem_filter.mp hm).1

/-- Setting what stands under its name already changes nothing. -/
lemma setArgument_of_found
    (h : ∀ given, name = some given → given ≠ "" → argumentNamed? args (build given).name = some (build given)) :
    setArgument build name args = args := by
  rcases setArgument_cases build name args with ⟨heq, -⟩ | ⟨given, hg, hne, heq⟩ <;> rw [heq]
  have hfo := h given hg hne
  rcases upsertArguments_cases args (build given) with ⟨hnew, -⟩ | ⟨front, old, back, rfl, ho, hnew, heq⟩
  · simp [argumentNamed_eq_none hnew] at hfo
  · rw [argumentNamed_append, argumentNamed_eq_none hnew, Option.none_or, argumentNamed_cons, if_pos ho] at hfo
    rw [heq, Option.some.inj hfo]

/-- The argument that is set is found under its name. -/
lemma argumentNamed_setArgument (build : Name → ArgumentDef) {given : Name} (h : given ≠ "")
    (args : List ArgumentDef) :
    argumentNamed? (setArgument build (some given) args) (build given).name =
      some (build given) := by
  simp [setArgument, h, argumentNamed_upsertArguments]

/-- What is found under other names stays. -/
lemma argumentNamed_setArgument_of_ne (h : ∀ given, (build given).name ≠ own) (name : Option Name)
    (args : List ArgumentDef) : argumentNamed? (setArgument build name args) own =
    argumentNamed? args own := by
  rcases setArgument_cases build name args with ⟨heq, -⟩ | ⟨given, -, -, heq⟩ <;> rw [heq]
  rw [argumentNamed_upsertArguments, if_neg (h given)]

/-! ## The bounds of a page -/

/-- The bounds of a page are added unless an argument has their name. -/
lemma mem_addPage : arg ∈ addPage args ↔ arg ∈ args ∨
    (arg ∈ pageArguments ∧ arg.name ∉ args.map (·.name)) := by
  simp [addPage]

lemma names_prefix_addPage (args : List ArgumentDef) :
    args.map (·.name) <+: (addPage args).map (·.name) := by
  rw [addPage, map_append]
  exact prefix_append _ _

lemma mem_names_addPage : own ∈ (addPage args).map (·.name) ↔ own ∈ args.map (·.name) ∨
    own ∈ pageArguments.map (·.name) := by
  constructor
  · intro h
    obtain ⟨arg, harg, rfl⟩ := mem_map.mp h
    exact (mem_addPage.mp harg).imp mem_map_of_mem fun h => mem_map_of_mem h.1
  · rintro (h | h)
    · exact (names_prefix_addPage args).subset h
    · by_cases hown : own ∈ args.map (·.name)
      · exact (names_prefix_addPage args).subset hown
      · obtain ⟨bound, hbo, rfl⟩ := mem_map.mp h
        exact mem_map_of_mem (mem_addPage.mpr (.inr ⟨hbo, hown⟩))

lemma nodup_names_addPage (h : (args.map (·.name)).Nodup) :
    ((addPage args).map (·.name)).Nodup := by
  unfold addPage
  rw [map_append]
  refine h.append ((by decide : (pageArguments.map (·.name)).Nodup).sublist (filter_sublist.map _))
    ?_
  intro name hn hpa
  obtain ⟨page, hfi, rfl⟩ := mem_map.mp hpa
  have hnew := (mem_filter.mp hfi).2
  exact absurd hn (by simpa using hnew)

/-- Nothing is added to arguments that have both bounds. -/
lemma addPage_of_mem (h : ∀ bound ∈ pageArguments, bound.name ∈ args.map (·.name)) :
    addPage args = args := by
  have hno : (pageArguments.filter fun bound => !(args.map (·.name)).contains bound.name) = [] := by
    rw [filter_eq_nil_iff]
    intro bound hbo
    simpa using h bound hbo
  simp only [addPage, hno, append_nil]

/-! ## All of them -/

section QueryArguments

variable {isList : Bool} {ordering filter : Option Name}

/-- The arguments of a field that returns nodes: declared ones, and those that page, order and
filter. -/
lemma mem_queryArguments (h : arg ∈ queryArguments args isList ordering filter) :
    arg ∈ args ∨ arg ∈ pageArguments ∨
      (∃ given, ordering = some given ∧ arg = orderingArgument given) ∨
      ∃ given, filter = some given ∧ arg = filterArgument given := by
  rcases mem_setArgument h with h | h
  · split at h
    · rcases mem_setArgument h with h | h
      · exact (mem_addPage.mp h).imp_right fun h => .inl h.1
      · exact .inr (.inr (.inl h))
    · exact .inl h
  · exact .inr (.inr (.inr h))

/-- The names of the arguments, by what sets them. -/
lemma mem_names_queryArguments_iff :
    own ∈ (queryArguments args isList ordering filter).map (·.name) ↔
    own ∈ args.map (·.name) ∨ (isList ∧ (own ∈ ["first", "offset"] ∨
      ∃ given, ordering = some given ∧ given ≠ "" ∧ own = "orderBy")) ∨
    ∃ given, filter = some given ∧ given ≠ "" ∧ own = "filter" := by
  rw [queryArguments, mem_names_setArgument, ← or_assoc]
  refine or_congr ?_ Iff.rfl
  cases isList with
  | false => simp
  | true =>
    rw [if_pos rfl, mem_names_setArgument, mem_names_addPage, or_assoc, eq_self, true_and]
    rfl

lemma mem_names_queryArguments (h : own ∈ args.map (·.name)) :
    own ∈ (queryArguments args isList ordering filter).map (·.name) :=
  mem_names_queryArguments_iff.mpr (.inl h)

/-- Arguments that are set stay when they are set again. -/
lemma HasQueryArguments.queryArguments_eq (h : HasQueryArguments isList ordering filter args) :
    queryArguments args isList ordering filter = args := by
  have hpa : (if isList then setArgument orderingArgument ordering (addPage args)
      else args) = args := by
    split
    next hl =>
      rw [addPage_of_mem (h.page hl)]
      exact setArgument_of_found (h.ordering hl)
    · rfl
  simp only [queryArguments, hpa]
  exact setArgument_of_found h.filter

/-- Whatever is declared, all that should be set is set. -/
lemma hasQueryArguments_queryArguments (isList : Bool) (ordering filter : Option Name)
    (args : List ArgumentDef) :
    HasQueryArguments isList ordering filter (queryArguments args isList ordering filter) where
  page := fun hl _ hbo => mem_names_queryArguments_iff.mpr
    (.inr (.inl ⟨hl, .inl (mem_map_of_mem hbo)⟩))
  ordering := by
    intro hl given hg hne
    simp only [queryArguments, hl, if_true, hg]
    -- The filter is set after the ordering and under another name.
    rw [argumentNamed_setArgument_of_ne (fun _ => by simp [filterArgument])]
    exact argumentNamed_setArgument orderingArgument hne _
  filter := by
    intro given hg hne
    simp only [queryArguments, hg]
    exact argumentNamed_setArgument filterArgument hne _

/-- Declared names stay in their order, before all others. -/
lemma names_prefix_queryArguments (args : List ArgumentDef) (isList : Bool)
    (ordering filter : Option Name) :
    args.map (·.name) <+: (queryArguments args isList ordering filter).map (·.name) := by
  refine .trans ?_ (names_prefix_setArgument ..)
  split
  · exact (names_prefix_addPage args).trans (names_prefix_setArgument ..)
  · exact prefix_rfl

lemma nodup_names_queryArguments (h : (args.map (·.name)).Nodup) :
    ((queryArguments args isList ordering filter).map (·.name)).Nodup := by
  refine nodup_names_setArgument ?_ _
  split
  · exact nodup_names_setArgument (nodup_names_addPage h) _
  · exact h

/-- Whether an argument has a name under which it may be replaced. -/
def ArgumentDef.isSet (arg : ArgumentDef) : Bool := arg.name == "orderBy" || arg.name == "filter"

/-- Arguments that are not replaced stay in their order, and missing bounds follow. -/
lemma filter_queryArguments (args : List ArgumentDef) (isList : Bool)
    (ordering filter : Option Name) :
    (queryArguments args isList ordering filter).filter (!·.isSet) = args.filter (!·.isSet) ++
      if isList then pageArguments.filter fun bound => !(args.map (·.name)).contains bound.name
      else [] := by
  have hst (build : Name → ArgumentDef) (h : ∀ given, (build given).isSet) (name : Option Name)
      (args : List ArgumentDef) : (setArgument build name args).filter (!·.isSet) =
        args.filter (!·.isSet) :=
    filter_setArgument (fun own => !(own == "orderBy" || own == "filter"))
      (fun given _ => congrArg (!·) (h given)) args
  rw [queryArguments, hst _ fun _ => rfl]
  split
  · rw [hst _ fun _ => rfl, addPage, filter_append, filter_filter]
    rfl
  · rw [append_nil]

/-- A declared argument that neither orders nor filters stays. -/
lemma mem_queryArguments_of_mem (h : arg ∈ args) (hord : arg.name ≠ "orderBy")
    (hfi : arg.name ≠ "filter") : arg ∈ queryArguments args isList ordering filter := by
  have hk : arg ∈ args.filter (!·.isSet) :=
    mem_filter.mpr ⟨h, by simp [ArgumentDef.isSet, hord, hfi]⟩
  have hm : arg ∈ (queryArguments args isList ordering filter).filter (!·.isSet) := by
    rw [filter_queryArguments]
    exact mem_append_left _ hk
  exact (mem_filter.mp hm).1

/-- An argument that is set: the only one of its name, in the place of a declared one. -/
structure SetsArgument (args result : List ArgumentDef) (arg : ArgumentDef) : Prop where
  once : result.filter (·.name == arg.name) = [arg]
  place : ∀ (place : Nat) old, args[place]? = some old → old.name = arg.name →
    result[place]? = some arg

/-- If names are distinct and declared ones come first, an argument stands once, in its place. -/
lemma setsArgument_of_mem {result : List ArgumentDef} (hnd : (result.map (·.name)).Nodup)
    (hpr : args.map (·.name) <+: result.map (·.name)) (h : arg ∈ result) :
    SetsArgument args result arg where
  once := by
    obtain ⟨front, back, rfl⟩ := append_of_mem h
    rw [map_append, map_cons, nodup_middle, nodup_cons, ← map_append] at hnd
    have hno (part : List ArgumentDef) (hpa : part ⊆ front ++ back) :
        part.filter (·.name == arg.name) = [] := by
      rw [filter_eq_nil_iff]
      intro other ho heq
      exact hnd.1 (beq_iff_eq.mp heq ▸ mem_map_of_mem (hpa ho))
    simp [hno front (subset_append_left _ _), hno back (subset_append_right _ _)]
  place := by
    intro place old hold hn
    obtain ⟨added, hadd⟩ := hpr
    have hna : (args.map (·.name))[place]? = some arg.name := by simp [hold, hn]
    have hre : (result.map (·.name))[place]? = some arg.name := by
      rw [← hadd, getElem?_append_left (List.getElem?_eq_some_iff.mp hna).1, hna]
    obtain ⟨other, ho, heq⟩ := Option.map_eq_some_iff.mp (getElem?_map ▸ hre)
    rw [ho, inj_on_of_nodup_map hnd (mem_of_getElem? ho) h heq]

/-- What setting the arguments that page, order and filter does to declared ones. -/
structure SetsArguments (isList : Bool) (ordering filter : Option Name)
    (args result : List ArgumentDef) : Prop where
  again : queryArguments result isList ordering filter = result
  distinct : (args.map (·.name)).Nodup → (result.map (·.name)).Nodup
  /-- Apart from orderings and filters there are the declared arguments in their order, and on a list the bounds of a page
  that are not declared. -/
  kept : result.filter (!·.isSet) = args.filter (!·.isSet) ++
    if isList then pageArguments.filter fun bound => !(args.map (·.name)).contains bound.name
      else []
  page : isList → ∀ bound ∈ pageArguments, bound.name ∈ result.map (·.name)
  /-- The empty text is no name. -/
  ordering : isList → (args.map (·.name)).Nodup → ∀ given, ordering = some given → given ≠ "" →
    SetsArgument args result (orderingArgument given)
  filter : (args.map (·.name)).Nodup → ∀ given, filter = some given → given ≠ "" →
    SetsArgument args result (filterArgument given)

/-- Arguments that page, order and filter are set once, and in place of declared ones. All other
arguments stay as they are. -/
theorem setsArguments_queryArguments (args : List ArgumentDef) (isList : Bool) (ordering filter : Option Name) :
    SetsArguments isList ordering filter args (queryArguments args isList ordering filter) := by
  have hhas := hasQueryArguments_queryArguments isList ordering filter args
  have hprefix := names_prefix_queryArguments args isList ordering filter
  exact {
    again := hhas.queryArguments_eq
    distinct := nodup_names_queryArguments
    kept := filter_queryArguments args isList ordering filter
    page := hhas.page
    ordering := fun hlist hnodup given hgiven hne =>
      setsArgument_of_mem (nodup_names_queryArguments hnodup) hprefix
      (mem_of_find?_eq_some (hhas.ordering hlist given hgiven hne))
    filter := fun hnodup given hgiven hne =>
      setsArgument_of_mem (nodup_names_queryArguments hnodup) hprefix
      (mem_of_find?_eq_some (hhas.filter given hgiven hne)) }

end QueryArguments

end GraphApi
