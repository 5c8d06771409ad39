import GraphApi.Proofs.Nested.Outcome

/-!
# Every value is covered by one block

A route is active if its members are declared one in the input type of the other, its last member
has a statement, and the values give that member an object or a list of objects. A successful run
has exactly one block for each active route (`blocks_cover_active_routes`).
-/

namespace GraphApi

open List NameMap

namespace Value

variable {value : Value} {object : Entries}

/-! ## Values that give objects -/

def HasUniformLists (value : Value) : Prop :=
  ∀ items, Within (.list items) value → (∀ item ∈ items, item.isObject) ∨ ∀ item ∈ items,
    item.isObject = false

def Gives (value : Value) (object : Entries) : Prop :=
  value = .object object ∨ ∃ items, value = .list items ∧ .object object ∈ items

def IsObjects (value : Value) : Prop :=
  (∃ object, value = .object object) ∨ ∃ items, value = .list items ∧ items ≠ [] ∧
    ∀ item ∈ items, item.isObject

lemma HasUniformLists.of_parts (h : ∀ part ∈ value.parts, ∀ items ∈ part.items?,
    (∀ item ∈ items, item.isObject) ∨ ∀ item ∈ items, item.isObject = false) :
    value.HasUniformLists :=
  fun items hpr => h _ (mem_parts_of_within hpr) items rfl

lemma HasUniformLists.of_within {part whole : Value} (huni : whole.HasUniformLists)
    (hpr : Within part whole) : part.HasUniformLists :=
  fun items his => huni items (his.trans hpr)

lemma gives_of_mem_objects (h : object ∈ value.objects) : value.Gives object := by
  unfold objects at h
  split at h
  · exact .inl (by rw [mem_singleton.mp h])
  · refine .inr ⟨_, rfl, ?_⟩
    rcases mem_cons.mp h with rfl | hr
    · exact mem_cons_self
    · obtain ⟨item, hi, hes⟩ := mem_filterMap.mp hr
      cases item with
      | object es =>
        cases hes
        exact mem_cons_of_mem _ hi
      | _ => cases hes
  · cases h

lemma gives_iff_mem_objects (huni : value.HasUniformLists) :
    value.Gives object ↔ object ∈ value.objects := by
  refine ⟨?_, gives_of_mem_objects⟩
  rintro (rfl | ⟨items, rfl, hi⟩)
  · exact mem_singleton_self _
  · rcases huni items (.refl _) with hall | hno
    · cases items with
      | nil => cases hi
      | cons fst rest =>
        -- the list starts with an object, so none of its objects is left out
        have h1 := hall fst mem_cons_self
        cases fst with
        | object es =>
          rcases mem_cons.mp hi with heq | hr
          · cases heq
            exact mem_cons_self
          · exact mem_cons_of_mem _ (mem_filterMap.mpr ⟨_, hr, rfl⟩)
        | _ => cases h1
    · have hobj := hno _ hi
      cases hobj

lemma isObjects_iff_objects_ne_nil (huni : value.HasUniformLists) :
    value.IsObjects ↔ value.objects ≠ [] := by
  constructor
  · rintro (⟨object, rfl⟩ | ⟨items, rfl, hne, hall⟩)
    · simp [objects]
    · obtain ⟨item, hi⟩ := exists_mem_of_ne_nil items hne
      have hit' := hall item hi
      cases item <;> simp [isObject] at hit'
      exact ne_nil_of_mem ((gives_iff_mem_objects huni).mp (.inr ⟨items, rfl, hi⟩))
  · intro hne
    obtain ⟨object, hobj⟩ := exists_mem_of_ne_nil _ hne
    rcases (gives_iff_mem_objects huni).mpr hobj with rfl | ⟨items, rfl, hi⟩
    · exact .inl ⟨object, rfl⟩
    · refine .inr ⟨items, rfl, ne_nil_of_mem hi, ?_⟩
      rcases huni items (.refl _) with hall | hno
      · exact hall
      · exact absurd (hno _ hi) (by simp [isObject])

end Value

namespace Nested

open Value Layout Route

variable {ctx : Setting} {above route outer : Route} {keys : NameMap Value} {levels : Nat}
  {members args : List ArgumentDef} {values : Entries} {expr text : String}
  {m : ArgumentDef} {path : List Name}

/-! ## The routes of a layout -/

lemma mem_allRoutes_memberLayout {within : Route → List ArgumentDef → NameMap Value → List Layout} :
    route ∈ allRoutes (memberLayout ctx within above keys m) ↔
      ∃ below keysBelow, ctx.members m.type.base = some below ∧
      keysUnder keys m.name = some keysBelow ∧
        ((memberIsComputed m ∧ route = above ++ [m]) ∨
          route ∈ allRoutes (within (above ++ [m]) below keysBelow)) := by
  unfold memberLayout
  split
  next below keysBelow hbe hks =>
    cases hcm : memberIsComputed m <;>
      simp [hbe, hks, allRoutes, routes]
  next hno =>
    constructor
    · intro h
      cases h
    · rintro ⟨below, keysBelow, hbe, hks, _⟩
      exact absurd hks (hno below keysBelow hbe)

lemma mem_allRoutes_layoutWithin : route ∈ allRoutes (layoutWithin ctx levels above members keys) ↔
    ∃ below : Route, route = above ++ below ∧ below.length ≤ levels ∧ Declares ctx members below ∧
      HasPath keys below.names ∧ below.IsComputed := by
  induction levels generalizing above members keys with
  | zero =>
    simp only [layoutWithin, allRoutes, not_mem_nil, false_iff]
    rintro ⟨below, _, hlen, _, _, front, m, hbe, _⟩
    simp [hbe] at hlen
  | succ levels ih =>
    rw [layoutWithin, allRoutes_flatMap, mem_flatMap]
    constructor
    · rintro ⟨m, hm, hrt⟩
      obtain ⟨below, keysBelow, hbe, hks, ⟨hcm, rfl⟩ | hin⟩ := mem_allRoutes_memberLayout.mp hrt
      · refine ⟨[m], rfl, by simp, ⟨hm, below, hbe, trivial⟩, ⟨keysBelow, hks, trivial⟩, ?_⟩
        exact (isComputed_singleton m).mpr hcm
      · obtain ⟨rest, rfl, hlen, hd, hp, hcm⟩ := ih.mp hin
        refine ⟨m :: rest, by simp,
          by simpa using hlen, ⟨hm, below, hbe, hd⟩, ⟨keysBelow, hks, hp⟩, ?_⟩
        obtain ⟨front, last, rfl, hl⟩ := hcm
        exact ⟨m :: front, last, by simp, hl⟩
    · -- the first member of the route is the one below which the rest stands
      rintro ⟨route', rfl, hlen, hd, hp, hcm⟩
      cases route' with
      | nil =>
        obtain ⟨front, last, hnil, _⟩ := hcm
        simp at hnil
      | cons m rest =>
        obtain ⟨hm, below, hbe, hr⟩ := hd
        obtain ⟨keysBelow, hks, hpb⟩ := hp
        refine ⟨m, hm, mem_allRoutes_memberLayout.mpr ⟨below, keysBelow, hbe, hks, ?_⟩⟩
        cases rest with
        | nil => exact .inl ⟨(isComputed_singleton m).mp hcm, rfl⟩
        | cons next os =>
          have hl := (isComputed_cons_cons m next os).mp hcm
          exact .inr (ih.mpr ⟨next :: os, by simp, by simpa using hlen, hr, hpb, hl⟩)

/-! ## The order of declaration -/

def Setting.declaredBelow (ctx : Setting) (arguments : List ArgumentDef) (route : Route) :
    List ArgumentDef :=
  match route.getLast? with
  | none => arguments
  | some member => (ctx.members member.type.base).getD []

/-- The first route comes before the second one in depth first order: it leads to it, or the two
part at members the first of which is declared earlier. -/
def Precedes (ctx : Setting) (arguments : List ArgumentDef) (first second : Route) : Prop :=
  (∃ member rest, second = first ++ member :: rest) ∨
    ∃ shared member other rest rest', first = shared ++ member :: rest ∧
      second = shared ++ other :: rest' ∧
      [member, other].Sublist (ctx.declaredBelow arguments shared)

/-- Members of one list have distinct names: the arguments, and the members of each input type. -/
structure DistinctNames (ctx : Setting) (arguments : List ArgumentDef) : Prop where
  arguments : (arguments.map (·.name)).Nodup
  members : ∀ type members, ctx.members type = some members → (members.map (·.name)).Nodup

lemma DistinctNames.of_types {types : NameMap (List ArgumentDef)}
    (h : ∀ members ∈ args :: types.values, (members.map (·.name)).Nodup) :
    DistinctNames { members := types.get? } args :=
  ⟨h _ mem_cons_self, fun _ _ hg => h _ (mem_cons_of_mem _ (mem_map_of_mem (mem_of_get? hg)))⟩

lemma DistinctNames.declaredBelow (hds : DistinctNames ctx args) (route : Route) :
    ((ctx.declaredBelow args route).map (·.name)).Nodup := by
  unfold Setting.declaredBelow
  split
  · exact hds.arguments
  next m _ =>
    cases hms : ctx.members m.type.base with
    | none => simp
    | some members => exact hds.members _ members hms

lemma Precedes.names_ne (hds : DistinctNames ctx args) {fst snd : Route}
    (h : Precedes ctx args fst snd) : fst.names ≠ snd.names := by
  rcases h with ⟨m, rest, rfl⟩ | ⟨shared, m, other, rest, rest', rfl, rfl, hsu⟩
  · intro heq
    have hlen := congrArg length heq
    simp [names] at hlen
  · intro heq
    have hns : [m.name, other.name].Nodup := by
      have hmap : ([m, other].map (·.name)).Nodup :=
        Sublist.nodup (hsu.map _) (hds.declaredBelow shared)
      exact hmap
    have hsame : m.name = other.name := by
      simp only [names, map_append, map_cons] at heq
      have hta := append_cancel_left heq
      exact (cons.inj hta).1
    simp [hsame] at hns

lemma prefix_of_mem_memberLayout
    (h : route ∈ allRoutes (memberLayout ctx (layoutWithin ctx levels) above keys m)) :
    ∃ rest, route = above ++ m :: rest := by
  obtain ⟨below, keysBelow, _, _, ⟨_, rfl⟩ | hin⟩ := mem_allRoutes_memberLayout.mp h
  · exact ⟨[], rfl⟩
  · obtain ⟨rest, rfl, _⟩ := mem_allRoutes_layoutWithin.mp hin
    exact ⟨rest, by simp⟩

lemma pairwise_precedes_layoutWithin (hms : members = ctx.declaredBelow args above) :
    (allRoutes (layoutWithin ctx levels above members keys)).Pairwise (Precedes ctx args) := by
  induction levels generalizing above members keys with
  | zero => simp [layoutWithin, allRoutes]
  | succ levels ih =>
    rw [layoutWithin, allRoutes_flatMap, pairwise_flatMap]
    constructor
    · -- below one member
      intro m _
      unfold memberLayout
      split
      next below keysBelow hbe hks =>
        have hbe' : below = ctx.declaredBelow args (above ++ [m]) := by
          simp [Setting.declaredBelow, hbe]
        have hne : (allRoutes (layoutWithin ctx levels (above ++ [m]) below keysBelow)).Pairwise
            (Precedes ctx args) := ih hbe'
        split
        · -- the block of the member itself leads to all blocks in it
          simp only [allRoutes, routes, append_nil, pairwise_cons]
          refine ⟨?_, hne⟩
          intro route hrt
          obtain ⟨rest, rfl, _, _, _, front, last, rfl, _⟩ := mem_allRoutes_layoutWithin.mp hrt
          cases front with
          | nil => exact .inl ⟨last, [], by simp⟩
          | cons next os => exact .inl ⟨next, os ++ [last], by simp⟩
        · exact hne
      · simp [allRoutes]
    · -- between two members
      rw [pairwise_iff_forall_sublist]
      intro m other hsu fst h1 snd h2
      obtain ⟨rest, rfl⟩ := prefix_of_mem_memberLayout h1
      obtain ⟨rest', rfl⟩ := prefix_of_mem_memberLayout h2
      exact .inr ⟨above, m, other, rest, rest', rfl, rfl, hms ▸ hsu⟩

/-! ## Nesting -/

/-- The second route leads from the first one over members without statements to one more member. -/
def Extends (outer route : Route) : Prop :=
  ∃ front member, route = outer ++ front ++ [member] ∧ ∀ step ∈ front, memberIsComputed step = false

lemma extends_of_mem_layoutWithin {layout : Layout}
    (h : layout ∈ layoutWithin ctx levels above members keys) : Extends above layout.route := by
  induction levels generalizing above members keys with
  | zero => cases h
  | succ levels ih =>
    rw [layoutWithin, mem_flatMap] at h
    obtain ⟨m, _, hl⟩ := h
    unfold memberLayout at hl
    split at hl
    · split at hl
      · have hrt : layout.route = above ++ [m] := by
          rw [mem_singleton.mp hl, route]
        exact ⟨[], m, by simpa using hrt, by simp⟩
      next hcm =>
        obtain ⟨front, last, hrt, hfr⟩ := ih hl
        refine ⟨m :: front, last, by simp [hrt], ?_⟩
        intro step hst
        rcases mem_cons.mp hst with rfl | hr
        · exact Bool.eq_false_iff.mpr hcm
        · exact hfr step hr
    · simp at hl

lemma extends_of_mem_allNestings
    (h : (outer, route) ∈ allNestings (layoutWithin ctx levels above members keys)) :
    outer ∈ allRoutes (layoutWithin ctx levels above members keys) ∧ Extends outer route := by
  induction levels generalizing above members keys with
  | zero => cases h
  | succ levels ih =>
    rw [layoutWithin, allNestings_flatMap, mem_flatMap] at h
    obtain ⟨m, hm, hne⟩ := h
    rw [layoutWithin, allRoutes_flatMap]
    suffices hpr : outer ∈ allRoutes (memberLayout ctx (layoutWithin ctx levels) above keys m) ∧
        Extends outer route from ⟨mem_flatMap.mpr ⟨m, hm, hpr.1⟩, hpr.2⟩
    unfold memberLayout at hne ⊢
    split at hne
    · split at hne
      next hcm =>
        rw [if_pos hcm]
        simp only [allNestings, nestings, append_nil, mem_append, mem_map] at hne
        rcases hne with ⟨layout, hl, hpa⟩ | hde
        · obtain ⟨rfl, rfl⟩ := Prod.mk.inj hpa
          exact ⟨by simp [allRoutes, routes], extends_of_mem_layoutWithin hl⟩
        · obtain ⟨hou, hex⟩ := ih hde
          exact ⟨by simp [allRoutes, routes, hou], hex⟩
      next hcm =>
        rw [if_neg hcm]
        exact ih hne
    · cases hne

lemma Layout.top_or_nested (ls : List Layout) (h : route ∈ allRoutes ls) :
    (∃ layout ∈ ls, layout.route = route) ∨ ∃ outer, (outer, route) ∈ allNestings ls := by
  induction ls using forest_induction with
  | nil => cases h
  | cons above m inner rest ihInner ihRest =>
    rw [allRoutes, mem_append, routes, mem_cons] at h
    simp only [allNestings, nestings, mem_append, mem_map, Prod.mk.injEq]
    rcases h with (rfl | hin) | hr
    · exact .inl ⟨_, mem_cons_self, rfl⟩
    · rcases ihInner hin with ⟨top, htop, hrt⟩ | ⟨outer, hou⟩
      · exact .inr ⟨_, .inl (.inl ⟨top, htop, rfl, hrt⟩)⟩
      · exact .inr ⟨outer, .inl (.inr hou)⟩
    · rcases ihRest hr with ⟨layout, hl, hrt⟩ | ⟨outer, hou⟩
      · exact .inl ⟨layout, mem_cons_of_mem _ hl, hrt⟩
      · exact .inr ⟨outer, .inr hou⟩

lemma Layout.route_mem_of_nested (ls : List Layout) (h : (outer, route) ∈ allNestings ls) :
    route ∈ allRoutes ls := by
  induction ls using forest_induction with
  | nil => cases h
  | cons above m inner rest ihInner ihRest =>
    rw [allNestings, mem_append, nestings, mem_append, mem_map] at h
    rw [allRoutes, mem_append, routes, mem_cons]
    rcases h with (⟨top, htop, hpa⟩ | hin) | hr
    · exact .inl (.inr ((Prod.mk.inj hpa).2 ▸ route_mem_allRoutes htop))
    · exact .inl (.inr (ihInner hin))
    · exact .inr (ihRest hr)

def StartsProperly (start route : Route) : Prop :=
  ∃ member rest, route = start ++ member :: rest

def IsLongestStart (property : Route → Prop) (start route : Route) : Prop :=
  property start ∧ StartsProperly start route ∧
    ∀ other, property other → StartsProperly other route → other <+: start

lemma Extends.start_le_outer (h : Extends outer route) {other : Route} (hcm : other.IsComputed)
    (hst : StartsProperly other route) : other <+: outer := by
  obtain ⟨front, m, rfl, hfr⟩ := h
  obtain ⟨next, rest, hsp⟩ := hst
  obtain ⟨above, last, rfl, hl⟩ := hcm
  -- both are starts of the route without its last member, so one is a start of the other
  have hpr : above ++ [last] <+: outer ++ front := by
    have hwh : above ++ [last] <+: outer ++ front ++ [m] := ⟨next :: rest, hsp.symm⟩
    rcases prefix_concat_iff.mp hwh with heq | hsh
    · have hlen := congrArg length hsp
      rw [← heq] at hlen
      simp at hlen
    · exact hsh
  rcases prefix_or_prefix_of_prefix hpr (prefix_append outer front) with hsh | ⟨tail, hta⟩
  · exact hsh
  · -- past the outer route the last member would be one without a statement
    cases hta' : tail.getLast? with
    | none =>
      rw [getLast?_eq_none_iff.mp hta', append_nil] at hta
      exact ⟨[], by simp [hta]⟩
    | some end' =>
      have hend : end' = last := by
        have hla := congrArg getLast? hta
        simpa [getLast?_append, hta'] using hla
      have hm : last ∈ front := by
        rw [← hta] at hpr
        exact ((prefix_append_right_inj outer).mp hpr).subset (hend ▸ mem_of_getLast? hta')
      simp [hfr last hm] at hl

/-! ## Active routes -/

/-- Following the names from the first object, through any item of any list on the way, one comes to
the second. -/
inductive Reaches : Entries → List Name → Entries → Prop
  | here (object : Entries) : Reaches object [] object
  | step {object next last : Entries} {name : Name} {rest : List Name} {value : Value}
      (hvalue : get? object name = some value) (hnext : value.Gives next)
      (hrest : Reaches next rest last) : Reaches object (name :: rest) last

lemma within_of_gives {value : Value} {object : Entries} (h : value.Gives object) :
    Within (.object object) value := by
  rcases h with rfl | ⟨items, rfl, hi⟩
  · exact .refl _
  · exact .item hi (.refl _)

lemma exists_reaches_of_canFollow (h : CanFollow values path) :
    ∃ last, Reaches values path last := by
  induction path generalizing values with
  | nil => exact ⟨values, .here values⟩
  | cons name rest ih =>
    obtain ⟨value, hv, next, hnx, hr⟩ := h
    obtain ⟨last, hl⟩ := ih hr
    exact ⟨last, .step hv (gives_of_mem_objects hnx) hl⟩

lemma canFollow_concat_iff (huni : HasUniformLists (.object values)) {name : Name} :
    CanFollow values (path ++ [name]) ↔
    ∃ object value, Reaches values path object ∧ get? object name = some value ∧
    value.IsObjects := by
  induction path generalizing values with
  | nil =>
    constructor
    · rintro ⟨value, hv, object, hobj, _⟩
      have hpr := huni.of_within (.entry (mem_of_get? hv) (.refl _))
      exact ⟨values, value, .here values, hv,
        (isObjects_iff_objects_ne_nil hpr).mpr (ne_nil_of_mem hobj)⟩
    · rintro ⟨object, value, hre, hv, hob⟩
      cases hre
      have hpr := huni.of_within (.entry (mem_of_get? hv) (.refl _))
      obtain ⟨next, hnx⟩ := exists_mem_of_ne_nil _ ((isObjects_iff_objects_ne_nil hpr).mp hob)
      exact ⟨value, hv, next, hnx, trivial⟩
  | cons fst rest ih =>
    -- the objects under the first name are those from which the rest is followed
    have hst : ∀ {value next}, get? values fst = some value →
        (value.Gives next ↔ next ∈ value.objects) ∧
          (value.Gives next → HasUniformLists (.object next)) := by
      intro value next hv
      have hpr := huni.of_within (.entry (mem_of_get? hv) (.refl _))
      exact ⟨gives_iff_mem_objects hpr, fun hgi => hpr.of_within (within_of_gives hgi)⟩
    constructor
    · rintro ⟨value, hv, next, hnx, hr⟩
      have hgi := (hst hv).1.mpr hnx
      obtain ⟨object, last, hre, hl, hob⟩ := (ih ((hst hv).2 hgi)).mp hr
      exact ⟨object, last, .step hv hgi hre, hl, hob⟩
    · rintro ⟨object, last, hre, hl, hob⟩
      cases hre with
      | step hv hgi hr =>
        refine ⟨_, hv, _, (hst hv).1.mp hgi, ?_⟩
        exact (ih ((hst hv).2 hgi)).mpr ⟨object, last, hr, hl, hob⟩

/-- The route is declared, its last member has a statement, and an object that the members before it
reach gives that member an object or a list of objects. -/
def Active (ctx : Setting) (arguments : List ArgumentDef) (values : Entries) (route : Route) :
    Prop :=
  Declares ctx arguments route ∧
    ∃ (above : Route) (member : ArgumentDef), route = above ++ [member] ∧ memberIsComputed member ∧
      ∃ object value, Reaches values above.names object ∧ get? object member.name = some value ∧
        value.IsObjects

/-- The values open the route: it is declared, can be followed in them, and has a statement at its
end. -/
def Opened (ctx : Setting) (arguments : List ArgumentDef) (values : Entries) (route : Route) :
    Prop :=
  Declares ctx arguments route ∧ CanFollow values route.names ∧ route.IsComputed

lemma active_iff (huni : HasUniformLists (.object values)) :
    Active ctx args values route ↔ Opened ctx args values route := by
  constructor
  · rintro ⟨hd, above, m, rfl, hcm, hg⟩
    refine ⟨hd, ?_, above, m, rfl, hcm⟩
    simpa [names] using (canFollow_concat_iff huni).mpr hg
  · rintro ⟨hd, hfo, above, m, rfl, hcm⟩
    refine ⟨hd, above, m, rfl, hcm, (canFollow_concat_iff huni).mp ?_⟩
    simpa [names] using hfo

/-! ## The main statement -/

/-- The layout has one place for each route with the property and no other, in depth first order of
declaration; a route stands at the top if no proper start of it has the property, and else inside
its longest such start. -/
structure LaysOut (ctx : Setting) (arguments : List ArgumentDef) (property : Route → Prop)
    (layouts : List Layout) : Prop where
  mem : ∀ route, route ∈ Layout.allRoutes layouts ↔ property route
  distinct : ((Layout.allRoutes layouts).map Route.names).Nodup
  ordered : (Layout.allRoutes layouts).Pairwise (Precedes ctx arguments)
  top : ∀ route, (∃ layout ∈ layouts, layout.route = route) ↔
    property route ∧ ∀ start, property start → ¬ StartsProperly start route
  nested : ∀ outer route, (outer, route) ∈ Layout.allNestings layouts ↔
    property route ∧ IsLongestStart property outer route

lemma laysOut_layoutWithin (hds : DistinctNames ctx args) {property : Route → Prop}
    (hm : ∀ route, route ∈ allRoutes (layoutWithin ctx levels [] args keys) ↔ property route)
    (hcm : ∀ route, property route → route.IsComputed) :
    LaysOut ctx args property (layoutWithin ctx levels [] args keys) := by
  have hor : (allRoutes (layoutWithin ctx levels [] args keys)).Pairwise
      (Precedes ctx args) := pairwise_precedes_layoutWithin rfl
  -- a block at the top has no start with a statement above it
  have htop : ∀ layout ∈ layoutWithin ctx levels [] args keys, ∀ start, property start →
      ¬ StartsProperly start layout.route := by
    intro layout hl start hsr hpr
    obtain ⟨above, m, rfl, _⟩ := hcm start hsr
    have hpf := (extends_of_mem_layoutWithin hl).start_le_outer (hcm _ hsr) hpr
    simp at hpf
  have hns : ∀ outer route, (outer, route) ∈ allNestings (layoutWithin ctx levels [] args keys) →
        IsLongestStart property outer route := by
    intro outer route hne
    obtain ⟨hou, hex⟩ := extends_of_mem_allNestings hne
    refine ⟨(hm outer).mp hou, ?_, fun other ho => hex.start_le_outer (hcm other ho)⟩
    obtain ⟨front, m, rfl, _⟩ := hex
    cases front with
    | nil => exact ⟨m, [], by simp⟩
    | cons next rest => exact ⟨next, rest ++ [m], by simp⟩
  refine ⟨hm, ?_, hor, ?_, ?_⟩
  · rw [Nodup, pairwise_map]
    exact hor.imp fun hpc => hpc.names_ne hds
  · intro route
    constructor
    · rintro ⟨layout, hl, rfl⟩
      exact ⟨(hm _).mp (route_mem_allRoutes hl), htop layout hl⟩
    · rintro ⟨hrt, hst⟩
      rcases top_or_nested _ ((hm route).mpr hrt) with hl | ⟨outer, hou⟩
      · exact hl
      · have hlo := hns outer route hou
        exact absurd hlo.2.1 (hst outer hlo.1)
  · intro outer route
    constructor
    · intro hne
      exact ⟨(hm route).mp (route_mem_of_nested _ hne), hns outer route hne⟩
    · rintro ⟨hrt, hlo⟩
      rcases top_or_nested _ ((hm route).mpr hrt) with ⟨layout, hl, rfl⟩ | ⟨other, ho⟩
      · exact absurd hlo.2.1 (htop layout hl outer hlo.1)
      · -- both are the longest start, so they are the same
        have hot' := hns other route ho
        have hle := hlo.2.2 other hot'.1 hot'.2.1
        have hge := hot'.2.2 outer hlo.1 hlo.2.1
        have heq : other = outer := hle.eq_of_length (Nat.le_antisymm hle.length_le hge.length_le)
        exact heq ▸ ho

lemma exists_keys_of_blocks (hks : HasDistinctKeys (.object values)) {res : List Block}
    (hrun : (blocks ctx args values expr).outcome = .ok res) :
    ∃ keys, res = toBlocks ctx { expression := expr }
        (layoutWithin ctx (levelLimit + 1) [] args keys) ∧
      ∀ route, route ∈ allRoutes (layoutWithin ctx (levelLimit + 1) [] args keys) ↔
        Opened ctx args values route := by
  obtain ⟨keys, hre, hwi⟩ := Run.bind_ok_iff.mp hrun
  obtain ⟨_, hpa⟩ := keysOfEntries_spec values hks keys hre
  obtain ⟨hres, hch⟩ := @eq_layout_of_blocksWithin ctx _ args keys { expression := expr } [] _ hwi
  refine ⟨keys, hres, ?_⟩
  intro route
  rw [mem_allRoutes_layoutWithin]
  constructor
  · rintro ⟨below, rfl, _, hd, hp, hcm⟩
    exact ⟨hd, (hpa _).mp hp, hcm⟩
  · rintro ⟨hd, hfo, hcm⟩
    -- the run would have failed at a route that needs more levels
    have hp := (hpa _).mpr hfo
    have hlen := length_lt_of_chains hch hd hp
    exact ⟨route, rfl, Nat.le_of_lt hlen, hd, hp, hcm⟩

lemma exists_keys_of_blocksText (hks : HasDistinctKeys (.object values))
    (hrun : (blocksText ctx args values expr).outcome = .ok text) :
    ∃ keys, text = Block.texts (toBlocks ctx { expression := expr }
        (layoutWithin ctx (levelLimit + 1) [] args keys)) ∧
      ∀ route, route ∈ allRoutes (layoutWithin ctx (levelLimit + 1) [] args keys) ↔
        Opened ctx args values route := by
  obtain ⟨res, hres, ht⟩ := Run.bind_ok_iff.mp hrun
  obtain ⟨keys, rfl, hm⟩ := exists_keys_of_blocks hks hres
  exact ⟨keys, by simpa using ht.symm, hm⟩

lemma texts_eq_empty_iff (blocks : List Block) : Block.texts blocks = "" ↔ blocks = [] := by
  constructor
  · intro h
    cases blocks with
    | nil => rfl
    | cons block rest =>
      obtain ⟨unwinding, stmt, res, inner⟩ := block
      cases rest <;> simp [Block.texts, Block.text, subqueryText, String.append_eq_empty_iff] at h
  · rintro rfl
    rfl

lemma blocksText_eq_empty_iff (hks : HasDistinctKeys (.object values))
    (huni : HasUniformLists (.object values))
    (hrun : (blocksText ctx args values expr).outcome = .ok text) :
    text = "" ↔ ∀ route, ¬ Active ctx args values route := by
  obtain ⟨keys, rfl, hm⟩ := exists_keys_of_blocksText hks hrun
  rw [texts_eq_empty_iff, toBlocks_eq_map, map_eq_nil_iff]
  constructor
  · intro hnil route hac
    have hrt := (hm route).mpr ((active_iff huni).mp hac)
    simp [hnil, allRoutes] at hrt
  · intro hno
    cases hla : layoutWithin ctx (levelLimit + 1) [] args keys with
    | nil => rfl
    | cons layout rest =>
      rw [hla] at hm
      have hrt := (hm layout.route).mp (route_mem_allRoutes mem_cons_self)
      exact absurd ((active_iff huni).mpr hrt) (hno layout.route)

/-! ## Mutations -/

def Setting.ofMutation (schema : Schema) (defn : FieldDef) : Setting where
  members := schema.inputMembers?
  root := cypherStatement defn.directives

/-- A field of the mutation type, with a statement that can be read. -/
structure IsMutation (schema : Schema) (field : Name) (defn : FieldDef) : Prop where
  declared : mutation? schema field = some defn
  readable : checkStatement defn.directives = .ok ()
  given : cypherStatement defn.directives ≠ .null

lemma translate_outcome {schema : Schema} {fd : Name} {defn : FieldDef}
    (hmut : IsMutation schema fd defn) (values : Entries) : (translate schema fd values).outcome =
      (blocksText (.ofMutation schema defn) defn.arguments values "" >>=
        withBlocks (cypherStatement defn.directives)).outcome.map
          fun statement => { statement, parameters := values } := by
  obtain ⟨hd, hre, hg⟩ := hmut
  have hst : mutationStatement schema.inputMembers? (cypherStatement defn.directives)
      defn.arguments values = blocksText (.ofMutation schema defn) defn.arguments values "" >>=
        withBlocks (cypherStatement defn.directives) := rfl
  unfold translate
  rw [hd]
  dsimp only
  rw [hre, Run.bind_outcome]
  dsimp only [Run.ofExcept]
  split
  next hnu => exact absurd hnu hg
  · rw [hst, Run.bind_outcome]
    cases (blocksText (.ofMutation schema defn) defn.arguments values "" >>=
      withBlocks (cypherStatement defn.directives)).outcome <;> rfl

/-- A successful run has exactly one block for each active route, in its place and in order. Without
active routes there is no text, and a mutation is translated to its own statement. -/
theorem blocks_cover_active_routes {setting : Setting} {arguments : List ArgumentDef}
    (hnames : DistinctNames setting arguments) {values : List (Name × Value)}
    (hkeys : HasDistinctKeys (.object values)) (huniform : HasUniformLists (.object values)) {expression text : String}
    (hrun : (blocksText setting arguments values expression).outcome = .ok text) :
    (∃ layouts, text = Block.texts (Layout.toBlocks setting { expression } layouts) ∧
      LaysOut setting arguments (Active setting arguments values) layouts) ∧
    (text = "" ↔ ∀ route, ¬ Active setting arguments values route) ∧
    ∀ schema field definition, IsMutation schema field definition → setting = .ofMutation schema definition →
      arguments = definition.arguments → expression = "" →
      (∀ route, ¬ Active setting arguments values route) →
      (translate schema field values).outcome =
        .ok { statement := cypherStatement definition.directives, parameters := values } := by
  have hempty := blocksText_eq_empty_iff hkeys huniform hrun
  refine ⟨?_, hempty, ?_⟩
  · obtain ⟨keys, htext, hmem⟩ := exists_keys_of_blocksText hkeys hrun
    refine ⟨_, htext, laysOut_layoutWithin hnames ?_ ?_⟩
    · intro route
      rw [hmem, active_iff huniform]
    · intro route hroute
      exact ((active_iff huniform).mp hroute).2.2
  · rintro schema field definition hmutation rfl rfl rfl hnone
    rw [translate_outcome hmutation, Run.bind_outcome, hrun]
    simp [hempty.mpr hnone, withBlocks, Except.map]

/-! ## A mutation with nested input -/

lemma ok_of_toOption {ε α : Type} {outcome : Except ε α} {res : α}
    (h : outcome.toOption = some res) : outcome = .ok res := by
  cases outcome with
  | error cause => cases h
  | ok given => simpa [Except.toOption] using h

def sampleStatement (content : String) : Directive :=
  { name := Mark.cypher.word, arguments := [("statement", .text content false)] }

def sampleList : ArgumentDef :=
  { name := "b", type := .list (.named "BInput" false) false,
    directives := [sampleStatement "MERGE (b)"] }

def sampleScalar : ArgumentDef :=
  { name := "extra", type := .named "Json" false,
    directives := [sampleStatement "SET n.extra = Json"] }

def sampleWrap : ArgumentDef := { name := "wrap", type := .named "WInput" false }

def sampleHidden : ArgumentDef :=
  { name := "b", type := .named "BInput" false, directives := [sampleStatement "MERGE (w)"] }

/-- Input types with statements at two levels, one of them behind a member without a statement. -/
def sampleTypes : NameMap (List ArgumentDef) :=
  [("AInput", [{ name := "name", type := .named "String" false }, sampleList,
     sampleScalar, sampleWrap]),
   ("BInput",
    [{ name := "c", type := .list (.named "CInput" false) false,
       directives := [sampleStatement "MERGE (c)"] }]),
   ("CInput", [{ name := "name", type := .named "String" false }]),
   ("WInput", [sampleHidden])]

def sampleSetting : Setting := { members := sampleTypes.get? }

def sampleData : ArgumentDef := { name := "data", type := .list (.named "AInput" false) false }

def sampleArguments : List ArgumentDef := [sampleData]

lemma distinctNames_sample : DistinctNames sampleSetting sampleArguments := .of_types (by decide)

def sampleValues : Entries :=
  [("data", .list
    [.object [("name", .text "a1"), ("wrap", .object [("b", .object [])])],
     .object [("b", .list [.object [], .object [("c", .list [.object [("name", .text "c1")]])]])]])]

/-- The blocks for these values: `b` of the second item with `c` inside, then `b` behind `wrap` of
the first item. -/
def sampleText : String :=
  "\nCALL \x7b\n  WITH *\n  UNWIND $data AS _data\n  UNWIND _data.b as BInput\n  MERGE (b)\nWITH *, BInput AS _BInput" ++
  "\nCALL \x7b\n  WITH *\n  UNWIND _BInput.c AS CInput\n  MERGE (c)\n  RETURN COUNT(*) AS _b_c_\n\x7d" ++
  "\n  RETURN COUNT(*) AS _data_b_\n\x7d" ++
  "\n\nCALL \x7b\n  WITH *\n  UNWIND $data.wrap.b AS BInput\n  MERGE (w)\n  RETURN COUNT(*) AS _wrap_b_\n\x7d"

lemma hasDistinctKeys_sample : HasDistinctKeys (.object sampleValues) :=
  .of_parts (by decide +kernel)

/-- The blocks of a sample, and the layout by which they cover its values. -/
theorem blocks_cover_sample :
    (blocksText sampleSetting sampleArguments sampleValues "").outcome = .ok sampleText ∧
      ∃ layouts, sampleText = Block.texts (Layout.toBlocks sampleSetting { expression := "" } layouts) ∧
        LaysOut sampleSetting sampleArguments
          (Active sampleSetting sampleArguments sampleValues) layouts := by
  have huniform : HasUniformLists (.object sampleValues) := .of_parts (by decide +kernel)
  have hrun : (blocksText sampleSetting sampleArguments sampleValues "").outcome = .ok sampleText :=
    ok_of_toOption (by decide +kernel)
  exact ⟨hrun, (blocks_cover_active_routes distinctNames_sample hasDistinctKeys_sample
    huniform hrun).1⟩

/-- An object given to a member of a scalar type gets no block, whatever statement the member has,
and an object in a list inside a list is not entered. -/
theorem no_block_for_scalar_or_inner_list :
    (∃ members value, sampleTypes.get? "AInput" = some members ∧ sampleScalar ∈ members ∧
      memberIsComputed sampleScalar ∧ IsObjects value ∧
      Reaches [("data", .list [.object [("extra", value)]])] ["data"] [("extra", value)] ∧
      (blocksText sampleSetting sampleArguments [("data", .list [.object [("extra", value)]])] "").outcome = .ok "") ∧
    ∃ object, sampleArguments.map (·.name) = ["data"] ∧ Within (.object object) (.list [.list [.object object]]) ∧
      (∃ value, NameMap.get? object "b" = some value ∧ IsObjects value) ∧
      (blocksText sampleSetting sampleArguments [("data", .list [.list [.object object]])] "").outcome = .ok "" := by
  constructor
  · refine ⟨_, .object [("k", .int 1)], rfl, by simp, by decide, Or.inl ⟨_, rfl⟩, ?_,
      ok_of_toOption (by decide +kernel)⟩
    exact .step rfl (Or.inr ⟨_, rfl, by simp⟩) (.here _)
  · refine ⟨[("b", .object [("c", .object [])])], rfl, ?_, ⟨_, rfl, Or.inl ⟨_, rfl⟩⟩,
      ok_of_toOption (by decide +kernel)⟩
    exact .item mem_cons_self (.item mem_cons_self (.refl _))

end Nested

end GraphApi
