import GraphApi.Proofs.Nested.Unwinding
import Mathlib.Data.List.Perm.Subperm

/-!
# Nulls in lists of input objects

A run looks at the keys of the values only along declared routes, so values with fewer declared
routes than others give the same blocks as these exactly if they have the same routes to statements
(`blocks_eq_iff_of_paths`). Whether a list holds objects is decided by its first item, so nulls in a
list of objects can make a difference. Main statement: `null_items_harmless_iff`.
-/

namespace GraphApi.Nested

open List NameMap Value Route Cypher

variable {ctx : Setting} {ms below args : List ArgumentDef} {m : ArgumentDef} {route : Route}
  {es vals : Entries} {keys os : NameMap Value} {levels : Nat} {expr : String} {type : TypeRef}
  {value : Value} {items : List Value} {name : Name}

/-! ## Chains and statements -/

lemma Route.IsComputed.cons (hrt : route.IsComputed) (step : ArgumentDef) :
    IsComputed (step :: route) := by
  obtain ⟨above, last, rfl, hl⟩ := hrt
  exact ⟨step :: above, last, rfl, hl⟩

lemma chains_eq_nil_of_paths (hpa : ∀ route, Declares ctx ms route → HasPath keys route.names →
    HasPath os route.names)
    (hch : chains ctx levels ms os = []) : chains ctx levels ms keys = [] := by
  refine eq_nil_iff_forall_not_mem.mpr fun route hrt => ?_
  obtain ⟨hlen, hd, hp⟩ := mem_chains.mp hrt
  have ho := mem_chains.mpr ⟨hlen, hd, hpa route hd hp⟩
  simp [hch] at ho

lemma ReadsAll.of_paths {scope : Scope}
    (hpa : ∀ route, Declares ctx ms route → HasPath keys route.names → HasPath os route.names)
    (hre : ReadsAll ctx levels ms os scope) : ReadsAll ctx levels ms keys scope := by
  induction levels generalizing ms keys os scope with
  | zero => trivial
  | succ levels ih =>
    intro m hm
    have hrd := hre m hm
    cases hbe : ctx.members m.type.base with
    | none => trivial
    | some below =>
      cases hks : keysUnder keys m.name with
      | none => trivial
      | some keysBelow =>
        have hp : HasPath os [m.name] := hpa [m] ⟨hm, below, hbe, trivial⟩ ⟨keysBelow, hks, trivial⟩
        obtain ⟨othersBelow, hos, _⟩ := hp
        rw [hbe, hos] at hrd
        refine ⟨hrd.1, ih ?_ hrd.2⟩
        intro route hd hrt
        obtain ⟨found, hfo, hr⟩ := hpa (m :: route) ⟨hm, below, hbe, hd⟩ ⟨keysBelow, hks, hrt⟩
        rwa [Option.some.inj (hos.symm.trans hfo)]

/-! ## Places -/

lemma Layout.eq_nil_of_allRoutes {ls : List Layout} (h : Layout.allRoutes ls = []) : ls = [] := by
  cases ls with
  | nil => rfl
  | cons layout rest =>
    obtain ⟨above, m, inner⟩ := layout
    cases h

lemma memberLayout_eq_nil {above : Route} (hm : m ∈ ms)
    (hno : ∀ rest : Route, Declares ctx ms (m :: rest) → IsComputed (m :: rest) →
      ¬ HasPath keys (m.name :: rest.names)) :
      memberLayout ctx (layoutWithin ctx levels) above keys m = [] := by
  refine Layout.eq_nil_of_allRoutes (eq_nil_iff_forall_not_mem.mpr fun route hrt => ?_)
  obtain ⟨below, keysBelow, hbe, hks, ⟨hcm, rfl⟩ | hin⟩ := mem_allRoutes_memberLayout.mp hrt
  · exact hno [] ⟨hm, below, hbe, trivial⟩ ((isComputed_singleton m).mpr hcm)
      ⟨keysBelow, hks, trivial⟩
  · obtain ⟨rest, rfl, _, hd, hp, hcm⟩ := mem_allRoutes_layoutWithin.mp hin
    exact hno rest ⟨hm, below, hbe, hd⟩ (hcm.cons m) ⟨keysBelow, hks, hp⟩

lemma layoutWithin_congr {above : Route} (hpa : ∀ route, Declares ctx ms route → route.IsComputed →
      (HasPath keys route.names ↔ HasPath os route.names)) :
    layoutWithin ctx levels above ms keys = layoutWithin ctx levels above ms os := by
  induction levels generalizing above ms keys os with
  | zero => rfl
  | succ levels ih =>
    refine congrArg flatten (map_congr_left fun m hm => ?_)
    -- if one of the two has no keys below the member, the other one has no statement there
    cases hks : keysUnder keys m.name with
    | none =>
      have hno : ∀ rest : Route, ¬ HasPath keys (m.name :: rest.names) := by simp [HasPath, hks]
      rw [memberLayout_eq_nil hm fun rest _ _ => hno rest,
        memberLayout_eq_nil hm fun rest hd hcm hp =>
          hno rest ((hpa _ hd hcm).mpr hp)]
    | some keysBelow =>
      cases hos : keysUnder os m.name with
      | none =>
        have hno : ∀ rest : Route, ¬ HasPath os (m.name :: rest.names) := by simp [HasPath, hos]
        rw [memberLayout_eq_nil hm fun rest hd hcm hp =>
            hno rest ((hpa _ hd hcm).mp hp),
          memberLayout_eq_nil hm fun rest _ _ => hno rest]
      | some othersBelow =>
        unfold memberLayout
        rw [hks, hos]
        cases hbe : ctx.members m.type.base with
        | none => rfl
        | some below =>
          have hin : ∀ route, Declares ctx below route → route.IsComputed →
              (HasPath keysBelow route.names ↔ HasPath othersBelow route.names) := by
            intro route hd hcm
            have hrt := hpa (m :: route) ⟨hm, below, hbe, hd⟩ (hcm.cons m)
            simpa [names, HasPath, hks, hos] using hrt
          simp only [@ih below keysBelow othersBelow (above ++ [m]) hin]

mutual

def Block.count : Block → Nat
  | .subquery _ _ _ inner => Block.counts inner + 1

def Block.counts : List Block → Nat
  | [] => 0
  | block :: rest => block.count + Block.counts rest

end

lemma Layout.counts_toBlocks (ctx : Setting) (start : Scope) (ls : List Layout) :
    Block.counts (Layout.toBlocks ctx start ls) = (Layout.allRoutes ls).length := by
  induction ls using Layout.forest_induction with
  | nil => rfl
  | cons above m inner rest ihInner ihRest =>
    simp [Layout.toBlocks, Layout.toBlock, Setting.blockIn, Block.counts, Block.count,
      Layout.allRoutes, Layout.routes, ihInner, ihRest]
    omega

lemma Layout.mem_allRoutes_of_toBlocks {start : Scope} {ls fewer : List Layout}
    (hnd : (Layout.allRoutes fewer).Nodup) (hsu : Layout.allRoutes fewer ⊆ Layout.allRoutes ls)
    (hbl : Layout.toBlocks ctx start fewer = Layout.toBlocks ctx start ls) :
    ∀ route ∈ Layout.allRoutes ls, route ∈ Layout.allRoutes fewer := by
  have hlen : (Layout.allRoutes ls).length ≤ (Layout.allRoutes fewer).length := by
    refine Nat.le_of_eq ?_
    rw [← counts_toBlocks ctx start, ← counts_toBlocks ctx start, hbl]
  have hpr := (subperm_of_subset hnd hsu).perm_of_length_le hlen
  exact fun route hrt => hpr.mem_iff.mpr hrt

/-! ## Runs -/

lemma blocks_ends (ctx : Setting) (args : List ArgumentDef) (hrd : keysOfEntries vals = .ok keys)
    (expr : String) : Ends [] (chains ctx (levelLimit + 1) args keys)
      (ReadsAll ctx (levelLimit + 1) args keys { expression := expr })
      (Layout.toBlocks ctx { expression := expr } (layoutWithin ctx (levelLimit + 1) [] args keys))
      (blocks ctx args vals expr).outcome := by
  have hen := @blocksWithin_ends ctx (levelLimit + 1) args keys { expression := expr } []
  have hout : (blocks ctx args vals expr).outcome =
      (blocksWithin ctx (levelLimit + 1) args keys { expression := expr }).outcome := by
    rw [blocks, Run.bind_outcome, hrd]
    rfl
  rwa [hout]

lemma eq_layout_of_blocks (hrd : keysOfEntries vals = .ok keys) {res : List Block}
    (hrun : (blocks ctx args vals expr).outcome = .ok res) :
    res = Layout.toBlocks ctx { expression := expr }
        (layoutWithin ctx (levelLimit + 1) [] args keys) ∧
      chains ctx (levelLimit + 1) args keys = [] ∧
        ReadsAll ctx (levelLimit + 1) args keys { expression := expr } := by
  have hen := blocks_ends ctx args hrd expr
  rw [hrun] at hen
  cases hen with
  | succeeds hch hre => exact ⟨rfl, hch, hre⟩

lemma mem_allRoutes_of_chains (hch : chains ctx levels ms keys = []) :
    route ∈ Layout.allRoutes (layoutWithin ctx levels [] ms keys) ↔
      Declares ctx ms route ∧ route.IsComputed ∧ HasPath keys route.names := by
  rw [mem_allRoutes_layoutWithin]
  constructor
  · rintro ⟨below, rfl, _, hd, hp, hcm⟩
    exact ⟨hd, hcm, hp⟩
  · rintro ⟨hd, hcm, hp⟩
    exact ⟨route, rfl, Nat.le_of_lt (length_lt_of_chains hch hd hp), hd, hp, hcm⟩

/-- Values with fewer paths give the same blocks exactly if they have the same routes to statements.
-/
theorem blocks_eq_iff_of_paths (hns : DistinctNames ctx args) {more : Entries}
    (hrd : keysOfEntries vals = .ok keys) (hmo : keysOfEntries more = .ok os)
    (hfe : ∀ route, Declares ctx args route → HasPath keys route.names → HasPath os route.names)
    {res : List Block} (hrun : (blocks ctx args more expr).outcome = .ok res) :
    (blocks ctx args vals expr).outcome = .ok res ↔
      ∀ route, Declares ctx args route → route.IsComputed → HasPath os route.names →
      HasPath keys route.names := by
  obtain ⟨rfl, hch, hre⟩ := eq_layout_of_blocks hmo hrun
  constructor
  · intro hsame route hd hcm hp
    obtain ⟨hbl, hno, _⟩ := eq_layout_of_blocks hrd hsame
    have hm : ∀ route, route ∈ Layout.allRoutes (layoutWithin ctx (levelLimit + 1) [] args keys) ↔
        Declares ctx args route ∧ route.IsComputed ∧ HasPath keys route.names := fun _ =>
      mem_allRoutes_of_chains hno
    have hly := laysOut_layoutWithin hns hm fun route hrt => hrt.2.1
    have hnd := Pairwise.of_map names (fun _ _ hne heq => hne (congrArg _ heq)) hly.distinct
    have hsu : Layout.allRoutes (layoutWithin ctx (levelLimit + 1) [] args keys) ⊆
        Layout.allRoutes (layoutWithin ctx (levelLimit + 1) [] args os) := by
      intro route hrt
      obtain ⟨hd, hcm, hp⟩ := (hm route).mp hrt
      exact (mem_allRoutes_of_chains hch).mpr ⟨hd, hcm, hfe route hd hp⟩
    have hrt := (mem_allRoutes_of_chains hch).mpr ⟨hd, hcm, hp⟩
    exact ((hm route).mp (Layout.mem_allRoutes_of_toBlocks hnd hsu hbl.symm route hrt)).2.2
  · intro hall
    have hen := blocks_ends ctx args hrd expr
    rw [layoutWithin_congr fun route hd hcm =>
      ⟨hfe route hd, hall route hd hcm⟩] at hen
    generalize (blocks ctx args vals expr).outcome = outcome at hen ⊢
    cases hen with
    | succeeds => rfl
    | stops chain hcn => simp [chains_eq_nil_of_paths hfe hch] at hcn
    | fails _ _ hnot => exact absurd (hre.of_paths hfe) hnot

/-! ## Values without nulls -/

def Setting.isInputType (ctx : Setting) : TypeRef → Bool
  | .named name _ => (ctx.members name).isSome
  | .list .. => false

mutual

def withoutNulls (ctx : Setting) (type : TypeRef) : Value → Value
  | .object entries => .object (entriesWithoutNulls ctx ((ctx.members type.base).getD []) entries)
  | .list items =>
    match type with
    | .list item _ => .list (itemsWithoutNulls ctx item items)
    | .named .. => .list items
  | leaf => leaf

def itemsWithoutNulls (ctx : Setting) (type : TypeRef) : List Value → List Value
  | [] => []
  | .null :: rest =>
    if ctx.isInputType type then itemsWithoutNulls ctx type rest
    else .null :: itemsWithoutNulls ctx type rest
  | item :: rest => withoutNulls ctx type item :: itemsWithoutNulls ctx type rest

/-- The entries of an object with the given members; other entries stay as they are. -/
def entriesWithoutNulls (ctx : Setting) (members : List ArgumentDef) : Entries → Entries
  | [] => []
  | (name, value) :: rest =>
    (name, match members.find? (·.name = name) with
      | some member => withoutNulls ctx member.type value
      | none => value) :: entriesWithoutNulls ctx members rest

end

lemma itemsWithoutNulls_cons (hv : value ≠ .null) (ctx : Setting) (type : TypeRef)
    (rest : List Value) :
    itemsWithoutNulls ctx type (value :: rest) =
      withoutNulls ctx type value :: itemsWithoutNulls ctx type rest := by
  cases value with
  | null => exact absurd rfl hv
  | _ => rw [itemsWithoutNulls]; simp

/-- Items are dropped or taken over one by one; a null that stays is its own value without nulls. -/
lemma mem_itemsWithoutNulls (h : value ∈ itemsWithoutNulls ctx type items) :
    ∃ item ∈ items, value = withoutNulls ctx type item := by
  induction items with
  | nil => simp [itemsWithoutNulls] at h
  | cons item rest ih =>
    have hmem : value = withoutNulls ctx type item ∨ value ∈ itemsWithoutNulls ctx type rest := by
      by_cases hnull : item = .null
      · subst hnull
        rw [itemsWithoutNulls] at h
        split at h
        · exact .inr h
        · exact mem_cons.mp h
      · exact mem_cons.mp (itemsWithoutNulls_cons hnull .. ▸ h)
    rcases hmem with heq | hrest
    · exact ⟨item, mem_cons_self, heq⟩
    · obtain ⟨other, hother, heq⟩ := ih hrest
      exact ⟨other, mem_cons_of_mem _ hother, heq⟩

lemma keys_entriesWithoutNulls (ctx : Setting) (ms : List ArgumentDef) (es : Entries) :
    NameMap.keys (entriesWithoutNulls ctx ms es) = NameMap.keys es := by
  induction es with
  | nil => rfl
  | cons e rest ih =>
    simpa [entriesWithoutNulls, NameMap.keys] using ih

lemma get?_entriesWithoutNulls (ctx : Setting) (hm : ms.find? (·.name = name) = some m)
    (es : Entries) : get? (entriesWithoutNulls ctx ms es) name =
      (get? es name).map (withoutNulls ctx m.type) := by
  induction es with
  | nil => rfl
  | cons e rest ih =>
    obtain ⟨key, value⟩ := e
    by_cases hk : key = name
    · subst hk
      simp [entriesWithoutNulls, get?, hm]
    · simpa [entriesWithoutNulls, get?, hk] using ih

lemma find?_name_of_nodup (hnd : (ms.map (·.name)).Nodup) (hm : m ∈ ms) :
    ms.find? (·.name = m.name) = some m := by
  induction ms with
  | nil => cases hm
  | cons head rest ih =>
    simp only [map_cons, nodup_cons] at hnd
    rcases mem_cons.mp hm with rfl | hr
    · simp
    · have hn : head.name ≠ m.name := fun heq => hnd.1 (heq ▸ mem_map_of_mem hr)
      simpa [hn] using ih hnd.2 hr

lemma itemsWithoutNulls_named {required : Bool} (hbe : ctx.members name = some below)
    (his : ∀ item ∈ items, HasType ctx (.named name required) item) :
    itemsWithoutNulls ctx (.named name required) items =
      (items.filterMap entries?).map fun es => .object (entriesWithoutNulls ctx below es) := by
  induction items with
  | nil => rfl
  | cons item rest ih =>
    have hr := ih (forall_mem_cons.mp his).2
    cases his item mem_cons_self with
    | null =>
      have hsk : (null :: rest).filterMap entries? = rest.filterMap entries? := rfl
      simpa [itemsWithoutNulls, Setting.isInputType, hbe, hsk] using hr
    | object hms =>
      simp [itemsWithoutNulls, withoutNulls, hbe, entries?, TypeRef.base, hr]
    | other hno => cases hbe.symm.trans hno

lemma objects_map_object (objects : List Entries) :
    Value.objects (.list (objects.map .object)) = objects := by
  have hes : ∀ rest : List Entries, (rest.map object).filterMap entries? = rest := by
    intro rest
    simp [filterMap_map, Function.comp_def, entries?]
  cases objects with
  | nil => rfl
  | cons fst rest => simp [Value.objects, hes]

lemma objects_withoutNulls (ht : HasType ctx type value)
    (hbe : ctx.members type.base = some below) :
    (withoutNulls ctx type value).objects =
      (givenBy value).map (entriesWithoutNulls ctx below) := by
  cases ht with
  | null => simp [withoutNulls, objects, givenBy]
  | object hms => simp [withoutNulls, objects, givenBy, hbe]
  | other hno => cases hbe.symm.trans hno
  | @list item _ items his =>
    rw [withoutNulls]
    cases item with
    | named name required =>
      have hn : ctx.members name = some below := hbe
      rw [itemsWithoutNulls_named hn his, givenBy, ← objects_map_object (map _ _), map_map]
      rfl
    | list inner required =>
      -- the items of a list of lists are no objects
      have hli : items.filterMap entries? = [] := by
        rw [filterMap_eq_nil_iff]
        intro item hi
        cases his item hi <;> rfl
      rw [givenBy, hli]
      cases items with
      | nil => rfl
      | cons fst rest =>
        cases his fst mem_cons_self with
        | null => simp [itemsWithoutNulls, Setting.isInputType, objects]
        | list => simp [itemsWithoutNulls, withoutNulls, objects]

lemma canFollow_withoutNulls_iff (hds : DistinctNames ctx ms) (hms : HasMembers ctx ms es)
    (hd : Declares ctx ms route) :
    CanFollow (entriesWithoutNulls ctx ms es) route.names ↔
      ∃ last, Reaches es route.names last := by
  induction route generalizing ms es with
  | nil => exact ⟨fun _ => ⟨es, .here es⟩, fun _ => trivial⟩
  | cons step rest ih =>
    obtain ⟨hst, below, hbe, hr⟩ := hd
    have hg := get?_entriesWithoutNulls ctx (find?_name_of_nodup hds.arguments hst) es
    have ht := hms step hst
    have hns : names (step :: rest) = step.name :: names rest := rfl
    rw [hns, CanFollow, hg]
    cases hv : get? es step.name with
    | none =>
      constructor
      · rintro ⟨value, hno, _⟩
        cases hno
      · rintro ⟨last, hre⟩
        cases hre with
        | step hso => cases hv.symm.trans hso
    | some value =>
      rw [under, hv, Option.getD_some] at ht
      -- the rest is followed alike from each object that is given
      have hin : ∀ {object}, value.Gives object →
            (CanFollow (entriesWithoutNulls ctx below object) (names rest) ↔
            ∃ last, Reaches object (names rest) last) := fun hgi =>
        ih ⟨hds.members _ below hbe, hds.members⟩ (ht.hasMembers hbe hgi) hr
      constructor
      · rintro ⟨_, hso, object, hobj, hfo⟩
        obtain rfl := Option.some.inj hso
        rw [objects_withoutNulls ht hbe, mem_map] at hobj
        obtain ⟨given, hgv, rfl⟩ := hobj
        have hgi := mem_givenBy_iff.mp hgv
        obtain ⟨last, hl⟩ := (hin hgi).mp hfo
        exact ⟨last, .step hv hgi hl⟩
      · rintro ⟨last, hre⟩
        cases hre with
        | step hso hgi hl =>
          obtain rfl := Option.some.inj (hv.symm.trans hso)
          refine ⟨_, rfl, _, ?_, (hin hgi).mpr ⟨last, hl⟩⟩
          rw [objects_withoutNulls ht hbe]
          exact mem_map_of_mem (mem_givenBy_iff.mpr hgi)

/-! ## Distinct keys stay distinct -/

mutual

lemma hasDistinctKeys_withoutNulls (type : TypeRef) (value : Value) (hds : value.HasDistinctKeys) :
    (withoutNulls ctx type value).HasDistinctKeys := by
  match value with
  | .null | .bool _ | .int _ | .float _ | .text _ => exact hds
  | .object es =>
    refine hasDistinctKeys_object ?_
      (hasDistinctKeys_entriesWithoutNulls _ es fun e he => hds.entry he)
    rw [keys_entriesWithoutNulls]
    exact hds es (.refl _)
  | .list items =>
    cases type with
    | named => exact hds
    | list item required =>
      refine hasDistinctKeys_list fun part hpart => ?_
      obtain ⟨other, hother, rfl⟩ := mem_itemsWithoutNulls hpart
      exact hasDistinctKeys_withoutNulls item other (hds.item hother)

lemma hasDistinctKeys_entriesWithoutNulls (ms : List ArgumentDef) (es : Entries)
    (hds : ∀ e ∈ es, e.2.HasDistinctKeys) :
    ∀ e ∈ entriesWithoutNulls ctx ms es, e.2.HasDistinctKeys := by
  match es with
  | [] => simp [entriesWithoutNulls]
  | (name, value) :: rest =>
    rw [entriesWithoutNulls, forall_mem_cons]
    refine ⟨?_, hasDistinctKeys_entriesWithoutNulls ms rest fun other ho =>
      hds other (mem_cons_of_mem _ ho)⟩
    split
    · exact hasDistinctKeys_withoutNulls _ value (hds _ mem_cons_self)
    · exact hds _ mem_cons_self

end

/-! ## Lists without a mixture -/

/-- No list in the value holds both a null and an object. -/
def HasPureLists (value : Value) : Prop :=
  ∀ items, Within (.list items) value → .null ∉ items ∨ ∀ item ∈ items, item.isObject = false

lemma HasPureLists.of_within {part whole : Value} (hpu : HasPureLists whole)
    (hpr : Within part whole) : HasPureLists part :=
  fun items his => hpu items (his.trans hpr)

lemma isObject_withoutNulls (ctx : Setting) (type : TypeRef) (value : Value) :
    (withoutNulls ctx type value).isObject = value.isObject := by
  cases value with
  | list items => cases type <;> rfl
  | _ => rfl

lemma isObject_itemsWithoutNulls (ctx : Setting) (type : TypeRef)
    (his : ∀ item ∈ items, item.isObject = false) :
    ∀ item ∈ itemsWithoutNulls ctx type items, item.isObject = false := by
  intro value h
  obtain ⟨item, hi, rfl⟩ := mem_itemsWithoutNulls h
  rw [isObject_withoutNulls, his item hi]

lemma keysOfValue_of_no_object (hv : value.isObject = false) (rest : List Value) :
    keysOfValue (.list (value :: rest)) = .ok none := by
  cases value with
  | object es => cases hv
  | _ =>
    rw [keysOfValue]
    · rfl
    all_goals simp

lemma keysOfValue_of_no_objects (his : ∀ item ∈ items, item.isObject = false) :
    keysOfValue (.list items) = .ok none := by
  cases items with
  | nil => rfl
  | cons fst rest => exact keysOfValue_of_no_object (his fst mem_cons_self) rest

lemma mergeItems_of_no_object {merged : NameMap Value} (hv : value.isObject = false)
    (rest : List Value) : mergeItems merged (value :: rest) = .error .mixedItems := by
  cases value with
  | object es => cases hv
  | _ => rfl

mutual

lemma keysOfValue_withoutNulls (type : TypeRef) (value : Value) (hpu : HasPureLists value) :
    keysOfValue (withoutNulls ctx type value) = keysOfValue value := by
  match value with
  | .null | .bool _ | .int _ | .float _ | .text _ => rfl
  | .object es =>
    rw [withoutNulls, keysOfValue, keysOfValue,
      keysOfEntries_withoutNulls _ es fun e he => hpu.of_within (.entry he (.refl _))]
  | .list [] => cases type <;> rfl
  | .list (fst :: rest) =>
    cases type with
    | named => rfl
    | list item required =>
      rw [withoutNulls]
      rcases hpu _ (.refl _) with hnu | hob
      · obtain ⟨h1, hr⟩ : fst ≠ .null ∧ .null ∉ rest := by
          simpa [eq_comm] using hnu
        have his := fun other ho => hpu.of_within (.item (mem_cons_of_mem fst ho) (.refl other))
        rw [itemsWithoutNulls_cons h1]
        cases fst with
        | object es =>
          have hes : ∀ e ∈ es, HasPureLists e.2 := fun e he =>
            hpu.of_within (.item mem_cons_self (.entry he (.refl _)))
          have hme := fun merged => mergeItems_withoutNulls item rest hr his merged
          rw [withoutNulls, keysOfValue, keysOfValue, keysOfEntries_withoutNulls _ es hes]
          simp only [hme]
        | _ => rw [keysOfValue_of_no_object (isObject_withoutNulls ..),
            keysOfValue_of_no_object rfl]
      · rw [keysOfValue_of_no_objects hob,
          keysOfValue_of_no_objects (isObject_itemsWithoutNulls ctx item hob)]

lemma keysOfEntries_withoutNulls (ms : List ArgumentDef) (es : Entries)
    (hpu : ∀ e ∈ es, HasPureLists e.2) :
    keysOfEntries (entriesWithoutNulls ctx ms es) = keysOfEntries es := by
  match es with
  | [] => rfl
  | (name, value) :: rest =>
    have hr := keysOfEntries_withoutNulls ms rest (forall_mem_cons.mp hpu).2
    have hv := fun type => keysOfValue_withoutNulls type value (hpu _ mem_cons_self)
    rw [entriesWithoutNulls, keysOfEntries, keysOfEntries, hr]
    cases ms.find? (·.name = name) with
    | none => rfl
    | some m => rw [hv]

lemma mergeItems_withoutNulls (type : TypeRef) (items : List Value) (hnu : .null ∉ items)
    (hpu : ∀ item ∈ items, HasPureLists item) (merged : NameMap Value) :
    mergeItems merged (itemsWithoutNulls ctx type items) = mergeItems merged items := by
  match items with
  | [] => rfl
  | item :: rest =>
    obtain ⟨hi, hr⟩ : item ≠ .null ∧ .null ∉ rest := by
      simpa [eq_comm] using hnu
    have hos := mergeItems_withoutNulls type rest hr (forall_mem_cons.mp hpu).2
    rw [itemsWithoutNulls_cons hi]
    cases item with
    | object es =>
      have hes : ∀ e ∈ es, HasPureLists e.2 := fun e he =>
        (hpu _ mem_cons_self).of_within (.entry he (.refl _))
      rw [withoutNulls, mergeItems, mergeItems, keysOfEntries_withoutNulls _ es hes]
      simp only [hos]
    | _ =>
      rw [mergeItems_of_no_object (isObject_withoutNulls ..), mergeItems_of_no_object rfl]

end

/-! ## The main statement -/

/-- Reading the keys fails exactly for a list that starts with an object and holds something
else. -/
lemma blocks_mixedItems_iff : (blocks ctx args vals expr).outcome = .error .mixedItems ↔
    Stumbles (.object vals) := by
  rcases keysOfEntries_cases vals with ⟨hst, hrd⟩ | ⟨hnot, keys, hrd⟩
  · refine iff_of_true ?_ hst
    rw [blocks, Run.bind_outcome, hrd]
    rfl
  · refine iff_of_false ?_ hnot
    intro her
    have hen := blocks_ends ctx args hrd expr
    rw [her] at hen
    cases hen with
    | fails _ hca => cases hca

lemma exists_keysOfEntries (hnot : ¬ Stumbles (.object vals)) :
    ∃ keys, keysOfEntries vals = .ok keys :=
  ((keysOfEntries_cases vals).resolve_left fun h => hnot h.1).2

/-- A run over typed values fails for a mixed list exactly if a list on the way starts with an
object and holds something else. Where the run over the values without nulls succeeds, the run over
the values gives the same blocks exactly if it meets no such list and loses no route to a statement
behind a null that comes first. Where no list holds both a null and an object, the two runs are the
same. -/
theorem null_items_harmless_iff {setting : Setting} {arguments : List ArgumentDef}
    (hnames : DistinctNames setting arguments) {values : List (Name × Value)}
    (hvalues : HasMembers setting arguments values) (hkeys : HasDistinctKeys (.object values)) (expression : String) :
    ((blocks setting arguments values expression).outcome = .error .mixedItems ↔ Stumbles (.object values)) ∧
    (∀ result, (blocks setting arguments (entriesWithoutNulls setting arguments values) expression).outcome =
        .ok result →
      ((blocks setting arguments values expression).outcome = .ok result ↔
        ¬ Stumbles (.object values) ∧ ∀ route, Declares setting arguments route → route.IsComputed →
          (∃ last, Reaches values route.names last) → CanFollow values route.names)) ∧
    (HasPureLists (.object values) →
      blocks setting arguments values expression =
        blocks setting arguments (entriesWithoutNulls setting arguments values) expression) := by
  refine ⟨blocks_mixedItems_iff, ?_, ?_⟩
  · intro result hclean
    have hcleanKeys : HasDistinctKeys (.object (entriesWithoutNulls setting arguments values)) := by
      refine hasDistinctKeys_object ?_
        (hasDistinctKeys_entriesWithoutNulls arguments values fun entry hentry =>
          hkeys.entry hentry)
      rw [keys_entriesWithoutNulls]
      exact hkeys values (.refl _)
    obtain ⟨others, hmore, _⟩ := Run.bind_ok_iff.mp hclean
    obtain ⟨_, hmorePaths⟩ := keysOfEntries_spec _ hcleanKeys others hmore
    -- without the nulls a route is there as soon as some items lead along it
    have hreached : ∀ route, Declares setting arguments route →
        (HasPath others route.names ↔ ∃ last, Reaches values route.names last) :=
          fun route hdeclared =>
      (hmorePaths _).trans (canFollow_withoutNulls_iff hnames hvalues hdeclared)
    by_cases hstumbles : Stumbles (.object values)
    · rw [blocks_mixedItems_iff.mpr hstumbles]
      simp [hstumbles]
    · obtain ⟨keys, hread⟩ := exists_keysOfEntries hstumbles
      obtain ⟨_, hpaths⟩ := keysOfEntries_spec values hkeys keys hread
      have hfewer : ∀ route, Declares setting arguments route → HasPath keys route.names →
          HasPath others route.names := fun route hdeclared hpath =>
        (hreached route hdeclared).mpr (exists_reaches_of_canFollow ((hpaths _).mp hpath))
      rw [blocks_eq_iff_of_paths hnames hread hmore hfewer hclean]
      refine (forall_congr' fun route => forall_congr' fun hdeclared => ?_).trans
        (and_iff_right hstumbles).symm
      rw [hreached route hdeclared, hpaths]
  · intro hpure
    rw [blocks, blocks, keysOfEntries_withoutNulls arguments values fun entry hentry =>
      hpure.of_within (.entry hentry (.refl _))]

def sampleItem : Value := .object [("b", .list [.object []])]

lemma hasMembers_sampleItems (his : ∀ item ∈ items, item = .null ∨ item = sampleItem) :
    HasMembers sampleSetting sampleArguments [("data", .list items)] := by
  have hsc : ∀ name value, sampleTypes.get? name = none →
      HasType sampleSetting (.named name false) value :=
    fun name value hno => .other hno
  have hb : HasType sampleSetting (.list (.named "BInput" false) false) (.list [.object []]) :=
    .list (forall_mem_singleton.mpr (.object rfl (forall_mem_singleton.mpr (.null _))))
  have hi : HasType sampleSetting (.named "AInput" false) sampleItem :=
    .object rfl (by simpa using ⟨hsc _ _ rfl, hb, hsc _ _ rfl, .null _⟩)
  refine forall_mem_singleton.mpr (.list fun item hm => ?_)
  rcases his item hm with rfl | rfl
  · exact .null _
  · exact hi

/-- A null after an object makes the run fail, and a null before it makes the run lose a block. -/
theorem null_items_sample :
    (blocks sampleSetting sampleArguments [("data", .list [sampleItem, .null])] "").outcome = .error .mixedItems ∧
    ∃ result, (blocks sampleSetting sampleArguments
        (entriesWithoutNulls sampleSetting sampleArguments [("data", .list [.null, sampleItem])]) "").outcome =
          .ok result ∧
      (blocks sampleSetting sampleArguments [("data", .list [.null, sampleItem])] "").outcome ≠ .ok result := by
  constructor
  · refine (null_items_harmless_iff distinctNames_sample (hasMembers_sampleItems (by simp))
      (.of_parts (by decide +kernel)) "").1.mpr ?_
    exact .entry mem_cons_self (.mixed mem_cons_self rfl)
  · have hsome : (blocks sampleSetting sampleArguments
        (entriesWithoutNulls sampleSetting sampleArguments [("data", .list [.null, sampleItem])])
        "").outcome.toOption.isSome := by decide +kernel
    obtain ⟨result, hresult⟩ := Option.isSome_iff_exists.mp hsome
    have hclean := ok_of_toOption hresult
    refine ⟨result, hclean, fun hsame => ?_⟩
    have hkept := ((null_items_harmless_iff distinctNames_sample (hasMembers_sampleItems (by simp))
      (.of_parts (by decide +kernel)) "").2.1 result hclean).mp hsame
    -- the route to `b` is reached through the second item, but the list counts as one without objects
    have hfollow := hkept.2 [sampleData, sampleList] ⟨mem_cons_self, _, rfl,
      by simp, _, rfl, trivial⟩ ⟨[sampleData], sampleList, rfl, by decide⟩
      ⟨_, .step rfl (Or.inr ⟨_, rfl, mem_cons_of_mem _ mem_cons_self⟩)
        (.step rfl (Or.inr ⟨_, rfl, mem_cons_self⟩) (.here _))⟩
    obtain ⟨value, hvalue, object, hobject, _⟩ := hfollow
    obtain rfl := Option.some.inj hvalue
    cases hobject

end GraphApi.Nested
