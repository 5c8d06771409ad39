import GraphApi.Proofs.Nested.Hygiene
import Mathlib.Data.List.Nodup

/-!
# Blocks in one scope

A block returns its count under a name that is made of the last two names of its route. Main
statement: `distinct_results_iff`.
-/

namespace GraphApi.Nested

open Value List Layout Route Block

variable {ctx : Setting} {start : Scope} {above : Route} {ls : List Layout} {place : Layout}

def Block.result : Block → Name
  | .subquery _ _ result _ => result

/-- The blocks return under distinct names, and so do the blocks inside each of them. -/
inductive Block.HaveDistinctResults : List Block → Prop
  | intro {blocks : List Block} (own : (blocks.map Block.result).Nodup)
      (inner : ∀ block ∈ blocks, HaveDistinctResults block.inner) : HaveDistinctResults blocks

lemma Block.haveDistinctResults_iff {blocks : List Block} : HaveDistinctResults blocks ↔
    (blocks.map result).Nodup ∧ ∀ block ∈ blocks, HaveDistinctResults block.inner :=
  ⟨fun | .intro own inner => ⟨own, inner⟩, fun ⟨own, inner⟩ => .intro own inner⟩

/-- Both routes have the property, and either no proper start of theirs has it or they have the same
longest one. -/
def AreSiblings (property : Route → Prop) (first second : Route) : Prop :=
  property first ∧ property second ∧
    ((∀ start, property start → ¬ StartsProperly start first ∧ ¬ StartsProperly start second) ∨
      ∃ outer, IsLongestStart property outer first ∧ IsLongestStart property outer second)

/-! ## Places -/

def Layout.inner : Layout → List Layout
  | .block _ _ inner => inner

mutual

def Layout.places : Layout → List Layout
  | .block above member inner => .block above member inner :: Layout.allPlaces inner

def Layout.allPlaces : List Layout → List Layout
  | [] => []
  | layout :: rest => layout.places ++ Layout.allPlaces rest

end

lemma Layout.map_route_allPlaces (ls : List Layout) : (allPlaces ls).map route = allRoutes ls := by
  induction ls using forest_induction with
  | nil => rfl
  | cons above m inner rest ihInner ihRest =>
    simp [allPlaces, places, allRoutes, routes, route, ihInner, ihRest]

lemma Layout.mem_allNestings_iff {outer route : Route} : (outer, route) ∈ allNestings ls ↔
    ∃ place ∈ allPlaces ls, place.route = outer ∧ route ∈ place.inner.map Layout.route := by
  induction ls using forest_induction with
  | nil => simp [allNestings, allPlaces]
  | cons above m inner rest ihInner ihRest =>
    simp only [allNestings, nestings, allPlaces, places, mem_append, cons_append, mem_cons, ihInner,
      ihRest, or_and_right, exists_or, exists_eq_left, or_assoc]
    refine or_congr_left ?_
    rw [mem_map]
    constructor
    · rintro ⟨layout, hl, hpa⟩
      obtain ⟨rfl, rfl⟩ := Prod.mk.inj hpa
      exact ⟨rfl, mem_map_of_mem hl⟩
    · rintro ⟨rfl, hm⟩
      obtain ⟨layout, hl, rfl⟩ := mem_map.mp hm
      exact ⟨layout, hl, rfl⟩

lemma Layout.allRoutes_inner_sublist (h : place ∈ allPlaces ls) :
    (allRoutes place.inner).Sublist (allRoutes ls) := by
  induction ls using forest_induction with
  | nil => cases h
  | cons above m inner rest ihInner ihRest =>
    have hin : (allRoutes inner).Sublist (allRoutes (.block above m inner :: rest)) :=
      (sublist_cons_self _ _).trans (sublist_append_left _ _)
    rw [allPlaces, places, cons_append, mem_cons, mem_append] at h
    rcases h with rfl | h | h
    · exact hin
    · exact (ihInner h).trans hin
    · exact (ihRest h).trans (sublist_append_right _ _)

lemma Layout.forall_inner_iff : (∀ block ∈ toBlocks ctx start ls, HaveDistinctResults block.inner) ↔
    ∀ place ∈ allPlaces ls, ((toBlocks ctx start place.inner).map result).Nodup := by
  induction ls using forest_induction with
  | nil => simp [toBlocks, allPlaces]
  | cons above m inner rest ihInner ihRest =>
    rw [toBlocks, forall_mem_cons, ihRest, toBlock, allPlaces, places, cons_append, forall_mem_cons,
      forall_mem_append, ← ihInner, ← and_assoc]
    exact and_congr_left fun _ => haveDistinctResults_iff

/-! ## Names of results -/

def Route.lastNames (route : Route) : List Name := route.names.drop (route.length - 2)

def Route.resultName (route : Route) : Name :=
  String.ofList ('_' :: route.lastNames.flatMap fun name => name.toList ++ ['_'])

lemma Route.lastNames_concat (above : Route) (m : ArgumentDef) :
    lastNames (above ++ [m]) = above.names.drop (above.length - 1) ++ [m.name] := by
  have hlen : above.length + 1 - 2 ≤ above.names.length := by
    simp [names]
  simp only [lastNames, names, map_append, length_append, map_cons, map_nil, length_cons,
    length_nil] at hlen ⊢
  rw [drop_append_of_le_length hlen]
  rfl

lemma Setting.parentField_enter (ctx : Setting) (scope : Scope) (m : ArgumentDef) :
    (ctx.enter scope m).parentField = m.name := by
  unfold enter
  split <;> rfl

lemma result_toBlock (hns : place.route.HasNames) (expr : String) :
    (place.toBlock ctx { expression := expr }).result = place.route.resultName := by
  obtain ⟨above, m, inner⟩ := place
  change (ctx.scopeAt { expression := expr } above).resultName m.name = resultName (above ++ [m])
  apply String.toList_inj.mp
  rw [resultName, lastNames_concat]
  rcases eq_nil_or_concat above with rfl | ⟨front, last, rfl⟩
  · simp [Scope.resultName, names]
  · have hl : last.name ≠ "" := (hns last (by simp [route])).1.1
    simp [Scope.resultName, names, ctx.parentField_enter, hl]

lemma map_result_toBlocks (hns : ∀ place ∈ ls, place.route.HasNames) (expr : String) :
    (toBlocks ctx { expression := expr } ls).map result = (ls.map route).map resultName := by
  rw [toBlocks_eq_map, map_map, map_map]
  exact map_congr_left fun place hpl => result_toBlock (hns place hpl) expr

lemma eq_of_flatMap_underscore {names os : List Name}
    (hns : ∀ name ∈ names ++ os, '_' ∉ name.toList)
    (h : (names.flatMap fun name => name.toList ++ ['_']) = os.flatMap fun name =>
      name.toList ++ ['_']) : names = os := by
  -- the first name is what comes before the first underscore
  have h1 {name : Name} (hn : '_' ∉ name.toList) (rest : Chars) :
      (name.toList ++ '_' :: rest).takeWhile (· != '_') = name.toList := by
    have hkp : ∀ c ∈ name.toList, (c != '_') :=
      fun c hc => bne_iff_ne.mpr (ne_of_mem_of_not_mem hc hn)
    rw [takeWhile_append_of_pos hkp]
    simp
  induction names generalizing os with
  | nil => cases os <;> simp_all
  | cons name rest ih =>
    cases os with
    | nil => simp at h
    | cons other rest' =>
      simp only [flatMap_cons, append_assoc, singleton_append] at h
      have heq := congrArg (takeWhile (· != '_')) h
      rw [h1 (hns name (by simp)), h1 (hns other (by simp)), String.toList_inj] at heq
      rw [heq] at h ⊢
      rw [ih (fun next hnx => hns next (by grind)) (cons.inj (append_cancel_left h)).2]

/-! ## The blocks of a run -/

lemma LaysOut.haveDistinctResults_iff {args : List ArgumentDef} {prop : Route → Prop}
    (hly : LaysOut ctx args prop ls) (hns : ∀ route, prop route → route.HasNames)
    (expr : String) : Block.HaveDistinctResults (toBlocks ctx { expression := expr } ls) ↔
      ∀ fst snd, AreSiblings prop fst snd → fst.resultName = snd.resultName → fst = snd := by
  have hro : (allRoutes ls).Nodup := Pairwise.of_map names (fun _ _ hne heq => hne (congrArg _ heq)) hly.distinct
  -- within one group of blocks, distinct results are distinct names of distinct routes
  have hg {group : List Layout} (hsub : (allRoutes group).Sublist (allRoutes ls)) :
      ((toBlocks ctx { expression := expr } group).map Block.result).Nodup ↔
        ∀ fst ∈ group.map route, ∀ snd ∈ group.map route,
          fst.resultName = snd.resultName → fst = snd := by
    rw [map_result_toBlocks fun place hpl =>
      hns _ ((hly.mem _).mp (hsub.subset (route_mem_allRoutes hpl)))]
    exact nodup_map_iff_inj_on (((map_route_sublist group).trans hsub).nodup hro)
  rw [Block.haveDistinctResults_iff, forall_inner_iff, hg (Sublist.refl _)]
  constructor
  · rintro ⟨htop, hin⟩ fst snd ⟨h1, h2, hno | ⟨outer, hou, hou'⟩⟩ hsame
    · refine htop _ (mem_map.mpr ?_) _ (mem_map.mpr ?_) hsame
      · exact (hly.top fst).mpr ⟨h1, fun start hst => (hno start hst).1⟩
      · exact (hly.top snd).mpr ⟨h2, fun start hst => (hno start hst).2⟩
    · obtain ⟨place, hpl, hrt, hm⟩ := mem_allNestings_iff.mp ((hly.nested outer fst).mpr ⟨h1, hou⟩)
      obtain ⟨other, ho, hro', hmem'⟩ := mem_allNestings_iff.mp ((hly.nested outer snd).mpr ⟨h2, hou'⟩)
      -- one route, one place
      rw [← map_route_allPlaces] at hro
      obtain rfl := inj_on_of_nodup_map hro hpl ho (hrt.trans hro'.symm)
      exact (hg (allRoutes_inner_sublist hpl)).mp (hin place hpl) _ hm _ hmem' hsame
  · intro hsi
    refine ⟨fun fst h1 snd h2 => hsi fst snd ?_, fun place hpl =>
      (hg (allRoutes_inner_sublist hpl)).mpr fun fst h1 snd h2 =>
        hsi fst snd ?_⟩
    · obtain ⟨h1, hno⟩ := (hly.top fst).mp (mem_map.mp h1)
      obtain ⟨h2, hno'⟩ := (hly.top snd).mp (mem_map.mp h2)
      exact ⟨h1, h2, .inl fun start hst => ⟨hno start hst, hno' start hst⟩⟩
    · obtain ⟨h1, hou⟩ := (hly.nested place.route fst).mp (mem_allNestings_iff.mpr ⟨place, hpl, rfl, h1⟩)
      obtain ⟨h2, hou'⟩ := (hly.nested place.route snd).mp (mem_allNestings_iff.mpr ⟨place, hpl, rfl, h2⟩)
      exact ⟨h1, h2, .inr ⟨place.route, hou, hou'⟩⟩

/-- The blocks of a successful run return under distinct names in every scope, unless the values
open two routes with the same enclosing blocks that make up the same name. Over names without
underscores those are the routes with the same last two names. Two members directly below the same
route never clash. -/
theorem distinct_results_iff {setting : Setting} {arguments : List ArgumentDef} (hnames : HasNames setting arguments)
    (hdistinct : DistinctNames setting arguments) {values : List (Name × Value)}
    (hkeys : HasDistinctKeys (.object values)) {expression : String} {result : List Block}
    (hrun : (blocks setting arguments values expression).outcome = .ok result) :
    (Block.HaveDistinctResults result ↔ ∀ first second, AreSiblings (Opened setting arguments values) first second →
      first.resultName = second.resultName → first = second) ∧
    (∀ first second : Route, (∀ name ∈ first.lastNames ++ second.lastNames, '_' ∉ name.toList) →
      (first.resultName = second.resultName ↔ first.lastNames = second.lastNames)) ∧
    ∀ (above : Route) member other, Opened setting arguments values (above ++ [member]) →
      Opened setting arguments values (above ++ [other]) →
      Route.resultName (above ++ [member]) = Route.resultName (above ++ [other]) → member = other := by
  obtain ⟨keys, rfl, hmem⟩ := exists_keys_of_blocks hkeys hrun
  have hlays := laysOut_layoutWithin hdistinct hmem fun route hroute => hroute.2.2
  refine ⟨hlays.haveDistinctResults_iff (fun route hroute => hnames.route hroute.1) expression, ?_,
    ?_⟩
  · refine fun first second hfree =>
      ⟨fun hsame => eq_of_flatMap_underscore hfree ?_, fun hsame => ?_⟩
    · simpa [resultName, String.ofList_inj] using hsame
    · rw [resultName, resultName, hsame]
  · intro above member other hmember hother hsame
    have hname : member.name = other.name := by
      simpa [resultName, lastNames_concat] using hsame
    have hroutes := inj_on_of_nodup_map hlays.distinct ((hmem _).mpr hmember) ((hmem _).mpr hother)
      (by simp [names, hname])
    simpa using hroutes

/-! ## Members without statements between the blocks -/

/-- Two arguments lead over members of one name to a member with a statement. -/
def wrappedTypes : NameMap (List ArgumentDef) :=
  [("XInput", [{ name := "w", type := .named "WInput" false }]), ("WInput", [sampleHidden]),
    ("BInput", [])]

def wrappedSetting : Setting := { members := wrappedTypes.get? }

def wrappedArguments : List ArgumentDef :=
  ["x", "y"].map fun name => { name, type := .named "XInput" false }

def wrappedValues : Entries :=
  ["x", "y"].map fun name => (name, .object [("w", .object [("b", .object [])])])

/-- Both blocks return under one name, so there are two routes that clash. -/
theorem wrapped_results_clash :
    ∃ result, (blocks wrappedSetting wrappedArguments wrappedValues "").outcome = .ok result ∧
      result.map Block.result = ["_w_b_", "_w_b_"] ∧
      ¬ ∀ first second, AreSiblings (Opened wrappedSetting wrappedArguments wrappedValues) first second →
        first.resultName = second.resultName → first = second := by
  have hnames : HasNames wrappedSetting wrappedArguments := .of_types (by decide +kernel)
  have hdistinct : DistinctNames wrappedSetting wrappedArguments := .of_types (by decide)
  have hkeys : HasDistinctKeys (.object wrappedValues) := .of_parts (by decide +kernel)
  have hresults : ((blocks wrappedSetting wrappedArguments wrappedValues "").outcome.toOption.map
      (·.map result)) = some ["_w_b_", "_w_b_"] := by decide +kernel
  obtain ⟨result, hresult, hclash⟩ := Option.map_eq_some_iff.mp hresults
  have hrun := ok_of_toOption hresult
  refine ⟨result, hrun, hclash, fun hall => ?_⟩
  have hown := (haveDistinctResults_iff.mp
    ((distinct_results_iff hnames hdistinct hkeys hrun).1.mpr hall)).1
  rw [hclash] at hown
  revert hown
  decide

end GraphApi.Nested
