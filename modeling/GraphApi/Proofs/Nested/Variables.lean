import GraphApi.Proofs.Nested.Depth

/-!
# The variables of blocks

A block imports all variables of the blocks around it, declares those of its unwind clauses, and
hands the last of them on under a name with an underscore (`fresh_variables_iff`).
-/

namespace GraphApi.Nested

open Value Cypher List Layout Setting Block

variable {ctx : Setting} {above below : Route} {m : ArgumentDef} {scope : List Name}
  {ms : List ArgumentDef} {keys : NameMap Value} {levels : Nat} {name : Name}

def Block.declared : Block → List Name
  | .subquery unwinding _ _ _ => ((unwindClauses? unwinding).getD []).map (·.name)

/-- The variables that a block adds for the blocks in it: those that it declares, and the last of
them as it is handed on. -/
def added (declared : List Name) : List Name := declared ++ (declared.getLast?.map handedOn).toList

/-- Variables can be declared in a scope: they differ from each other and are not in it. -/
def AreNew (scope declared : List Name) : Prop := declared.Nodup ∧ ∀ name ∈ declared, name ∉ scope

/-- In a scope, no block declares a variable that is in scope there, and no block inside one
does. -/
inductive Block.AreFresh : List Name → List Block → Prop
  | intro {scope : List Name} {blocks : List Block}
      (own : ∀ block ∈ blocks, AreNew scope block.declared)
      (inner : ∀ block ∈ blocks, AreFresh (scope ++ added block.declared) block.inner) :
      AreFresh scope blocks

lemma Block.areFresh_iff {blocks : List Block} : AreFresh scope blocks ↔
    ∀ block ∈ blocks, AreNew scope block.declared ∧
      AreFresh (scope ++ added block.declared) block.inner :=
  ⟨fun | .intro own inner => fun block hb => ⟨own block hb, inner block hb⟩,
    fun h => .intro (fun block hb => (h block hb).1) fun block hb => (h block hb).2⟩

/-! ## Variables along a route -/

def Setting.variables (setting : Setting) : Route → ArgumentDef → List Name
  | [], member => [member.type.base]
  | argument :: rest, member => ((setting.access argument rest).clauses member).map (·.name)

def Setting.addedAlong (setting : Setting) (above : Route) : Route → List Name
  | [] => []
  | member :: rest =>
    (if memberIsComputed member then added (setting.variables above member) else []) ++
      setting.addedAlong (above ++ [member]) rest

lemma unwindClauses?_start (hn : IsName m.name) (ht : IsName m.type.base) :
    unwindClauses? (ctx.unwinding {} m) = some [⟨⟨.bound
      (if ctx.usesVariable {} m then m.type.base else m.name), [m.name]⟩, m.type.base⟩] := by
  refine unwindClauses?_one ⟨⟨?_, by simpa using hn⟩, ht⟩ (by decide : "AS".toList ∈ asWords) ?_
  · cases ctx.usesVariable {} m <;> simpa
  · simp [unwinding, Scope.unwindClause, Scope.parameter, Unwind.text, PathExpr.text, Root.text,
      unwindWord, dotted]

lemma declared_blockIn (hns : Route.HasNames (above ++ [m])) (inner : List Block) :
    (ctx.blockIn (ctx.scopeAt {} above) m inner).declared = ctx.variables above m := by
  change ((unwindClauses? (ctx.unwinding (ctx.scopeAt {} above) m)).getD []).map (·.name) = _
  cases above with
  | cons arg rest => simp [unwindClauses?_unwinding hns, Setting.variables]
  | nil =>
    obtain ⟨hn, ht⟩ := hns m (by simp)
    simp [scopeAt, unwindClauses?_start hn ht, Setting.variables]

lemma mem_allRoutes_below {fst : ArgumentDef} :
    above ++ (below ++ [m]) ∈ allRoutes (layoutWithin ctx levels (above ++ [fst]) ms keys) ↔
      ∃ rest, below = fst :: rest ∧ above ++ [fst] ++ (rest ++ [m]) ∈
        allRoutes (layoutWithin ctx levels (above ++ [fst]) ms keys) := by
  constructor
  · intro h
    obtain ⟨_, heq, _, _, _, rest, last, rfl, _⟩ := mem_allRoutes_layoutWithin.mp h
    have hsp : below ++ [m] = fst :: rest ++ [last] := by simpa using heq
    obtain ⟨rfl, hl⟩ := append_inj' hsp rfl
    exact ⟨rest, rfl, by simpa using h⟩
  · rintro ⟨rest, rfl, h⟩
    simpa using h

def Setting.HasNewVariables (setting : Setting) (scope : List Name) (above : Route)
    (layouts : List Layout) : Prop :=
  ∀ below member, above ++ (below ++ [member]) ∈ Layout.allRoutes layouts →
    AreNew (scope ++ setting.addedAlong above below) (setting.variables (above ++ below) member)

lemma areFresh_memberLayout (hrt : Route.HasNames (above ++ [m]))
    (ih : ∀ types keysBelow scope, ctx.members m.type.base = some types →
      (AreFresh scope (toBlocks ctx {} (layoutWithin ctx levels (above ++ [m]) types keysBelow)) ↔
        ctx.HasNewVariables scope (above ++ [m])
          (layoutWithin ctx levels (above ++ [m]) types keysBelow))) :
    AreFresh scope (toBlocks ctx {} (memberLayout ctx (layoutWithin ctx levels) above keys m)) ↔
      ctx.HasNewVariables scope above
      (memberLayout ctx (layoutWithin ctx levels) above keys m) := by
  unfold memberLayout
  split
  next types keysBelow hts hks =>
    split
    next hcm =>
      rw [areFresh_iff, toBlocks_eq_map, map_singleton, forall_mem_singleton, toBlock,
        declared_blockIn hrt, blockIn, Block.inner, ih _ _ _ hts]
      simp only [HasNewVariables, allRoutes, routes, append_nil, mem_cons, mem_allRoutes_below]
      constructor
      -- a route here ends at the member or leads over it, and then its variables are in scope
      · rintro ⟨hown, hbe⟩ below last (heq | ⟨rest, rfl, hr⟩)
        · obtain ⟨rfl, rfl⟩ : below = [] ∧ last = m := by simpa [append_eq_singleton_iff] using heq
          simpa [addedAlong] using hown
        · simpa [addedAlong, hcm] using hbe rest last hr
      · intro h
        refine ⟨by simpa [addedAlong] using h [] m (.inl rfl), fun rest last hr => ?_⟩
        simpa [addedAlong, hcm] using h (m :: rest) last (.inr ⟨rest, rfl, hr⟩)
    next hcm =>
      rw [ih _ _ _ hts]
      simp only [HasNewVariables, mem_allRoutes_below]
      constructor
      · rintro h below last ⟨rest, rfl, hr⟩
        simpa [addedAlong, hcm] using h rest last hr
      · intro h rest last hr
        simpa [addedAlong, hcm] using h (m :: rest) last ⟨rest, rfl, hr⟩
  · rw [areFresh_iff]
    simp [HasNewVariables, toBlocks, allRoutes]

lemma areFresh_layoutWithin (hab : above.HasNames) (hns : HasNames ctx ms) :
    AreFresh scope (toBlocks ctx {} (layoutWithin ctx levels above ms keys)) ↔
      ctx.HasNewVariables scope above (layoutWithin ctx levels above ms keys) := by
  induction levels generalizing above ms keys scope with
  | zero =>
    rw [areFresh_iff]
    simp [HasNewVariables, layoutWithin, toBlocks, allRoutes]
  | succ levels ih =>
    have hm {m : ArgumentDef} (hm : m ∈ ms) : AreFresh scope (toBlocks ctx {}
          (memberLayout ctx (layoutWithin ctx levels) above keys m)) ↔
        ctx.HasNewVariables scope above
          (memberLayout ctx (layoutWithin ctx levels) above keys m) := by
      have hrt : Route.HasNames (above ++ [m]) :=
        forall_mem_append.mpr ⟨hab, by simpa using hns.arguments m hm⟩
      exact areFresh_memberLayout hrt fun types keysBelow scope hts =>
        ih hrt ⟨hns.members _ types hts, hns.members⟩
    rw [areFresh_iff, toBlocks_eq_map, layoutWithin, map_flatMap, forall_mem_flatMap]
    simp only [← toBlocks_eq_map, ← areFresh_iff]
    constructor
    · intro h below last hrt
      rw [allRoutes_flatMap] at hrt
      obtain ⟨m, h1, hrt⟩ := mem_flatMap.mp hrt
      exact (hm h1).mp (h m h1) below last hrt
    · intro h m h1
      refine (hm h1).mpr fun below last hrt => h below last ?_
      rw [allRoutes_flatMap]
      exact mem_flatMap.mpr ⟨m, h1, hrt⟩

/-! ## Types without a leading underscore -/

lemma Setting.variables_cases (ctx : Setting) (above : Route) (m : ArgumentDef) :
    ctx.variables above m = [m.type.base] ∨ ∃ fd, ctx.variables above m =
      ["_" ++ fd, m.type.base] ∧ ∀ step ∈ above, memberIsComputed step = false := by
  cases above with
  | nil => exact .inl rfl
  | cons arg rest =>
    rw [Setting.variables, access]
    split
    · exact .inl rfl
    next hno =>
      split
      · exact .inl rfl
      · rw [Access.clauses]
        split
        · exact .inr ⟨_, rfl, enclosing?_none hno⟩
        · exact .inl rfl

lemma mem_addedAlong (hn : name.toList.head? ≠ some '_') :
    name ∈ ctx.addedAlong above below ↔ ∃ host ∈ below, memberIsComputed host ∧
      host.type.base = name := by
  have hne (fd : Name) : name ≠ "_" ++ fd := by
    rintro rfl
    simp at hn
  induction below generalizing above with
  | nil => simp [addedAlong]
  | cons m rest ih =>
    have hadd : name ∈ added (ctx.variables above m) ↔ m.type.base = name := by
      rcases ctx.variables_cases above m with h | ⟨fd, h, -⟩ <;>
        simp [h, added, handedOn, hne, eq_comm]
    simp only [addedAlong, mem_append, mem_cons, exists_eq_or_imp]
    refine or_congr ?_ ih
    cases hcm : memberIsComputed m <;> simp [hadd]

lemma addedAlong_eq_nil (h : ∀ step ∈ below, memberIsComputed step = false) :
    ctx.addedAlong above below = [] := by
  induction below generalizing above with
  | nil => rfl
  | cons m rest ih =>
    obtain ⟨hm, hr⟩ := forall_mem_cons.mp h
    simp [addedAlong, hm, ih hr]

lemma areNew_variables_iff (ht : m.type.base.toList.head? ≠ some '_') :
    AreNew (ctx.addedAlong [] above) (ctx.variables above m) ↔
      ∀ host ∈ above, memberIsComputed host → host.type.base ≠ m.type.base := by
  rcases ctx.variables_cases above m with h | ⟨fd, h, hno⟩
  · simp [AreNew, h, mem_addedAlong ht]
  · -- a list is unwound only if there is no block on the way, so nothing else is in scope
    have hne : "_" ++ fd ≠ m.type.base := by
      intro heq
      simp [← heq] at ht
    rw [h, addedAlong_eq_nil hno]
    simp +contextual [AreNew, hne, hno]

/-! ## The blocks of a run -/

/-- No block of a successful run declares a variable that is in scope exactly if the variables of
every route that the values open are new after those of the blocks on it. If no type with a
statement has a leading underscore, this means that no route leads from a member with a statement to
another one of the same type. -/
theorem fresh_variables_iff {setting : Setting} {arguments : List ArgumentDef} (hnames : HasNames setting arguments)
    {values : List (Name × Value)} (hkeys : HasDistinctKeys (.object values)) {result : List Block}
    (hrun : (blocks setting arguments values "").outcome = .ok result) :
    (∀ scope, Block.AreFresh scope result ↔ ∀ above member, Opened setting arguments values (above ++ [member]) →
      AreNew (scope ++ setting.addedAlong [] above) (setting.variables above member)) ∧
    ((∀ above member, Opened setting arguments values (above ++ [member]) →
        member.type.base.toList.head? ≠ some '_') →
      (Block.AreFresh [] result ↔ ∀ above member, Opened setting arguments values (above ++ [member]) →
        ∀ host ∈ above, memberIsComputed host → host.type.base ≠ member.type.base)) := by
  obtain ⟨keys, rfl, hmem⟩ := exists_keys_of_blocks hkeys hrun
  have hfresh (scope : List Name) :=
    @areFresh_layoutWithin setting [] scope arguments keys (levelLimit + 1)
      (forall_mem_nil _) hnames
  simp only [Setting.HasNewVariables, nil_append, hmem] at hfresh
  refine ⟨hfresh, fun htypes => (hfresh []).trans ?_⟩
  refine forall_congr' fun above => forall_congr' fun member => forall_congr' fun hopened => ?_
  exact areNew_variables_iff (htypes above member hopened)

/-- A tree in a tree in a tree gives a block inside a block of the same type. -/
theorem tree_redeclares_variable :
    ∃ result, (blocks (treeSetting (.text "MERGE (m)" false)) [treeArgument] [("tree", .object (treeIn 2))] "").outcome =
      .ok result ∧ ¬ Block.AreFresh [] result := by
  have hnames : HasNames (treeSetting (.text "MERGE (m)" false)) [treeArgument] :=
    .of_types (by decide +kernel)
  obtain ⟨result, hresult⟩ := Option.isSome_iff_exists.mp (by decide +kernel : (blocks (treeSetting
    (.text "MERGE (m)" false)) [treeArgument] [("tree", .object (treeIn 2))]
    "").outcome.toOption.isSome)
  have hrun := ok_of_toOption hresult
  refine ⟨result, hrun, fun hfresh => ?_⟩
  have hopened : Opened (treeSetting (.text "MERGE (m)" false)) [treeArgument]
      [("tree", .object (treeIn 2))] ([treeArgument, treeChildren] ++ [treeChildren]) := by
    refine ⟨?_, ?_, [treeArgument, treeChildren], treeChildren, rfl, rfl⟩
    · exact ⟨.head _, _, rfl, .tail _ (.head _), _, rfl, .tail _ (.head _), _, rfl, trivial⟩
    · exact ⟨_, rfl, _, .head _, _, rfl, _, .head _, _, rfl, _, .head _, trivial⟩
  have hnew := ((fresh_variables_iff hnames (.of_parts (by decide +kernel)) hrun).1 []).mp
    hfresh _ _ hopened
  exact absurd (hnew.2 "TreeInput" (by decide +kernel)) (by decide +kernel)

end GraphApi.Nested
