import GraphApi.Nested.Translate
import GraphApi.Proofs.Nested.Keys

/-!
# Where the blocks are

The blocks of a successful run are laid out by the members through which each is reached. A layout
is a forest of such routes; every text of a block is a function of its route.
-/

namespace GraphApi

namespace Nested

variable {α : Type} {ctx : Setting} {keys : NameMap Value} {blocks : List Block}
  {members : List ArgumentDef}

abbrev Route := List ArgumentDef

def Route.names (route : Route) : List Name := route.map (·.name)

/-- The place of a block: the members above it, its own member, and the places of the blocks nested
in it. -/
inductive Layout where
  | block (above : Route) (member : ArgumentDef) (inner : List Layout)

def Layout.route : Layout → Route
  | .block above member _ => above ++ [member]

/-- What holds of no places, and of a place beside others if it holds of the places in it and of the
others, holds of all places. -/
@[elab_as_elim] lemma Layout.forest_induction {motive : List Layout → Prop} (nil : motive [])
    (cons : ∀ above m inner rest, motive inner → motive rest →
      motive (.block above m inner :: rest)) : ∀ ls, motive ls
  | [] => nil
  | .block above m inner :: rest =>
    cons above m inner rest (forest_induction nil cons inner) (forest_induction nil cons rest)

mutual

def Layout.routes : Layout → List Route
  | .block above member inner => (above ++ [member]) :: Layout.allRoutes inner

def Layout.allRoutes : List Layout → List Route
  | [] => []
  | layout :: rest => layout.routes ++ Layout.allRoutes rest

end

mutual

def Layout.nestings : Layout → List (Route × Route)
  | .block above member inner =>
    inner.map (fun layout => (above ++ [member], layout.route)) ++ Layout.allNestings inner

def Layout.allNestings : List Layout → List (Route × Route)
  | [] => []
  | layout :: rest => layout.nestings ++ Layout.allNestings rest

end

@[simp] lemma Layout.allRoutes_append (fst snd : List Layout) :
    allRoutes (fst ++ snd) = allRoutes fst ++ allRoutes snd := by
  induction fst with
  | nil => simp [allRoutes]
  | cons layout rest ih => simp [allRoutes, ih]

@[simp] lemma Layout.allNestings_append (fst snd : List Layout) :
    allNestings (fst ++ snd) = allNestings fst ++ allNestings snd := by
  induction fst with
  | nil => simp [allNestings]
  | cons layout rest ih => simp [allNestings, ih]

lemma Layout.allRoutes_flatMap (items : List α) (place : α → List Layout) :
    allRoutes (items.flatMap place) = items.flatMap fun item => allRoutes (place item) := by
  induction items with
  | nil => simp [allRoutes]
  | cons item rest ih => simp [ih]

lemma Layout.allNestings_flatMap (items : List α) (place : α → List Layout) :
    allNestings (items.flatMap place) = items.flatMap fun item => allNestings (place item) := by
  induction items with
  | nil => simp [allNestings]
  | cons item rest ih => simp [ih]

lemma Layout.route_mem_allRoutes {ls : List Layout} {layout : Layout} (hl : layout ∈ ls) :
    layout.route ∈ allRoutes ls := by
  induction ls with
  | nil => simp at hl
  | cons head rest ih =>
    rw [allRoutes, List.mem_append]
    rcases List.mem_cons.mp hl with rfl | hr
    · obtain ⟨above, m, inner⟩ := layout
      exact .inl (by simp [routes, route])
    · exact .inr (ih hr)

/-! ## The texts of a block -/

/-- Whether the list variable of an argument is used; a statement that cannot be read uses none. -/
def Setting.usesVariable (ctx : Setting) (scope : Scope) (member : ArgumentDef) : Bool :=
  match ctx.usesListVariable scope member.name member.type.base with
  | .ok uses => uses
  | .error _ => false

def Setting.enter (ctx : Setting) (scope : Scope) (member : ArgumentDef) : Scope :=
  let type := member.type.base
  let isList := scope.isRoot && member.type.wrappers.list
  let uses := ctx.usesVariable scope member
  if memberIsComputed member then scope.enterBlock member.name type isList
  else scope.enterField member.name (scope.parameter member.name type false uses) isList uses

def Setting.scopeAt (ctx : Setting) (start : Scope) (route : Route) : Scope :=
  route.foldl ctx.enter start

@[simp] lemma Setting.scopeAt_nil (ctx : Setting) (start : Scope) :
    ctx.scopeAt start [] = start := rfl

@[simp] lemma Setting.scopeAt_concat (ctx : Setting) (start : Scope) (route : Route)
    (m : ArgumentDef) :
    ctx.scopeAt start (route ++ [m]) = ctx.enter (ctx.scopeAt start route) m := by
  simp [scopeAt]

def Setting.unwinding (ctx : Setting) (scope : Scope) (member : ArgumentDef) : String :=
  let uses := ctx.usesVariable scope member
  scope.unwindClause (scope.parameter member.name member.type.base true uses)
    member.name member.type.base uses

def statementText (member : ArgumentDef) : String :=
  match memberStatement member with
  | .ok stmt => stmt
  | .error _ => ""

/-- The statement in a block, with the variable of the block threaded through. -/
def threadedText (member : ArgumentDef) (hasNested : Bool) : String :=
  match Cypher.threadName (statementText member).toList member.type.base.toList hasNested with
  | .ok threaded => String.ofList threaded
  | .error _ => ""

def Setting.blockIn (ctx : Setting) (scope : Scope) (member : ArgumentDef) (inner : List Block) :
    Block :=
  .subquery (ctx.unwinding scope member) (threadedText member (!inner.isEmpty))
    (scope.resultName member.name) inner

mutual

def Layout.toBlock (ctx : Setting) (start : Scope) : Layout → Block
  | .block above member inner =>
    ctx.blockIn (ctx.scopeAt start above) member (Layout.toBlocks ctx start inner)

def Layout.toBlocks (ctx : Setting) (start : Scope) : List Layout → List Block
  | [] => []
  | layout :: rest => layout.toBlock ctx start :: Layout.toBlocks ctx start rest

end

lemma Layout.toBlocks_eq_map (ctx : Setting) (start : Scope) (ls : List Layout) :
    toBlocks ctx start ls = ls.map (toBlock ctx start) := by
  induction ls with
  | nil => rfl
  | cons layout rest ih => simp [toBlocks, ih]

/-! ## The layout of a run -/

/-- The places of the blocks for one member that is reached over others, by `within` for the members
below it. -/
def memberLayout (ctx : Setting) (within : Route → List ArgumentDef → NameMap Value → List Layout)
    (above : Route) (keys : NameMap Value) (member : ArgumentDef) : List Layout :=
  match ctx.members member.type.base, keysUnder keys member.name with
  | some below, some keysBelow =>
    if memberIsComputed member then
      [.block above member (within (above ++ [member]) below keysBelow)]
    else within (above ++ [member]) below keysBelow
  | _, _ => []

/-- The places of the blocks for some members that are reached over others, with the given number of
levels left. -/
def layoutWithin (ctx : Setting) : Nat → Route → List ArgumentDef → NameMap Value → List Layout
  | 0, _, _, _ => []
  | levels + 1, above, members, keys =>
    members.flatMap (memberLayout ctx (layoutWithin ctx levels) above keys)

/-! ## Routes that the values open -/

/-- Each member of the route is declared where it stands: the first one among the given members,
each further one in the input type of the one before. All of them have an input type. -/
def Declares (ctx : Setting) : List ArgumentDef → Route → Prop
  | _, [] => True
  | members, member :: rest =>
    member ∈ members ∧ ∃ below, ctx.members member.type.base = some below ∧ Declares ctx below rest

lemma Declares.of_append {fst snd : Route} (h : Declares ctx members (fst ++ snd)) :
    Declares ctx members fst := by
  induction fst generalizing members with
  | nil => trivial
  | cons step rest ih =>
    obtain ⟨hst, below, hbe, hr⟩ := h
    exact ⟨hst, below, hbe, ih hr⟩

def Route.IsComputed (route : Route) : Prop :=
  ∃ above member, route = above ++ [member] ∧ memberIsComputed member

lemma Route.isComputed_singleton (m : ArgumentDef) : Route.IsComputed [m] ↔ memberIsComputed m := by
  constructor
  · rintro ⟨above, last, hrt, hl⟩
    obtain ⟨rfl, rfl⟩ : above = [] ∧ last = m := by
      cases above with
      | nil => exact ⟨rfl, by simpa using hrt.symm⟩
      | cons head rest => simp at hrt
    exact hl
  · intro h
    exact ⟨[], m, rfl, h⟩

lemma Route.isComputed_cons_cons (fst snd : ArgumentDef) (rest : Route) :
    Route.IsComputed (fst :: snd :: rest) ↔ Route.IsComputed (snd :: rest) := by
  constructor
  · rintro ⟨above, last, hrt, hl⟩
    cases above with
    | nil => simp at hrt
    | cons head tail =>
      have hta : snd :: rest = tail ++ [last] := by simpa using (List.cons.inj hrt).2
      exact ⟨tail, last, hta, hl⟩
  · rintro ⟨above, last, hrt, hl⟩
    exact ⟨fst :: above, last, by simp [hrt], hl⟩

end Nested

end GraphApi
