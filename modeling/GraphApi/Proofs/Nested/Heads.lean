import GraphApi.Proofs.Nested.Siblings

/-!
# The head of a block

A block begins with the unwind clauses for its values and ends with the name of its count, both
functions of its route (`blocks_have_heads`).
-/

namespace GraphApi.Nested

open Cypher Value List Scope

variable {ctx : Setting} {args : List ArgumentDef} {arg m host : ArgumentDef}
  {above outer front rest : Route} {inner ls : List Layout}

/-! ## Heads -/

def Route.dots (route : Route) : String := String.ofList (dotted route.names)

/-- Whether the root statement unwinds an argument as a variable named after its type. -/
def Setting.unwindsArgument (ctx : Setting) (arg : ArgumentDef) : Bool :=
  match ctx.root with
  | .text root => Cypher.unwinds root.toList arg.name.toList arg.type.base.toList
  | _ => false

/-- The expression for the values of an argument: the variable as which the root statement unwinds
it, or the parameter. -/
def Setting.source (ctx : Setting) (arg : ArgumentDef) : String :=
  if ctx.unwindsArgument arg then arg.type.base else "$" ++ arg.name

/-- The unwind clauses for a member below a route that starts with an argument. Below a member with
a statement the values are reached over the variable that its block hands on, after an underscore.
Otherwise they are reached from the argument, and a list directly above the member is unwound first
unless the root statement unwinds the argument. -/
def Setting.head (ctx : Setting) (arg : ArgumentDef) (rest : Route) (member : ArgumentDef) :
    String :=
  match enclosing? (arg :: rest) with
  | some (_, host, front) =>
    "UNWIND _" ++ host.type.base ++ front.dots ++ "." ++ member.name ++ " AS " ++ member.type.base
  | none =>
    let last := lastOf arg rest
    if last.type.wrappers.list && !ctx.unwindsArgument arg then
      "UNWIND " ++ ctx.source arg ++ rest.dots ++ " AS _" ++ last.name ++
        "\n  UNWIND _" ++ last.name ++ "." ++ member.name ++ " as " ++ member.type.base
    else "UNWIND " ++ ctx.source arg ++ rest.dots ++ "." ++ member.name ++ " AS " ++
      member.type.base

lemma Setting.usesVariable_start (ctx : Setting) (arg : ArgumentDef) :
    ctx.usesVariable {} arg = ctx.unwindsArgument arg := by
  have hus : ctx.usesListVariable {} arg.name arg.type.base =
    ctx.unwinds arg.name arg.type.base := rfl
  unfold usesVariable unwindsArgument
  rw [hus, unwinds]
  cases hr : ctx.root with
  | text root => rfl
  | list items =>
    cases his : readItems none items with
    | ok _ => simp [readStatement, his, Except.map, bind, Except.bind, pure, Except.pure]
    | error cause => simp [readStatement, his, Except.map, bind, Except.bind]
  | object es => cases es <;> rfl
  | _ => rfl

lemma Setting.unwinding_block (hhs : memberIsComputed host)
    (hfr : ∀ step ∈ front, memberIsComputed step = false) (ht : host.type.base ≠ "") :
    ctx.unwinding (ctx.scopeAt {} (outer ++ host :: front)) m =
      "UNWIND _" ++ host.type.base ++ front.dots ++ "." ++ m.name ++ " AS " ++ m.type.base := by
  obtain ⟨hex, hr⟩ := ctx.scopeAt_block {} outer hhs ht hfr
  apply String.toList_inj.mp
  simp [unwinding, unwindClause, parameter, hex, hr, ht, Route.dots]

lemma Setting.unwinding_argument (hab : ∀ step ∈ arg :: rest, memberIsComputed step = false)
    (hn : arg.name ≠ "") (ht : arg.type.base ≠ "") :
    ctx.unwinding (ctx.scopeAt {} (arg :: rest)) m =
      if (lastOf arg rest).type.wrappers.list && !ctx.unwindsArgument arg then
        "UNWIND " ++ ctx.source arg ++ rest.dots ++ " AS _" ++ (lastOf arg rest).name ++
          "\n  UNWIND _" ++ (lastOf arg rest).name ++ "." ++ m.name ++ " as " ++ m.type.base
      else "UNWIND " ++ ctx.source arg ++ rest.dots ++ "." ++ m.name ++ " AS " ++ m.type.base := by
  obtain ⟨hex, hr, hus, hf, hl⟩ := ctx.scopeAt_argument hn ht hab
  rw [ctx.usesVariable_start] at hex hus
  have hne : (ctx.scopeAt {} (arg :: rest)).expression ≠ "" := by
    rw [hex]
    split <;> simp [hn, ht]
  have huv : ctx.usesVariable (ctx.scopeAt {} (arg :: rest)) m = ctx.unwindsArgument arg := by
    rw [ctx.usesVariable_of_expression hne, hus]
  cases hun : ctx.unwindsArgument arg <;>
    simp [unwinding, unwindClause, parameter, hex, hr, hf, hl, huv, hun, hn, ht, source, Route.dots,
      String.append_assoc]

lemma Setting.unwinding_eq_head (hns : Route.HasNames (arg :: rest)) :
    ctx.unwinding (ctx.scopeAt {} (arg :: rest)) m = ctx.head arg rest m := by
  unfold head
  split
  next outer host front henc =>
    obtain ⟨hab, hhs, hfr⟩ := enclosing?_some henc
    have ht : host.type.base ≠ "" := (hns host (by simp [hab])).2.1
    rw [hab]
    exact ctx.unwinding_block hhs hfr ht
  next henc =>
    obtain ⟨hn, ht⟩ := hns arg mem_cons_self
    exact ctx.unwinding_argument (enclosing?_none henc) hn.1 ht.1

/-! ## The blocks of a run -/

lemma Setting.resultName_scopeAt (ctx : Setting) (hns : Route.HasNames (arg :: rest)) :
    (ctx.scopeAt {} (arg :: rest)).resultName m.name = "_" ++ (lastOf arg rest).name ++ "_" ++
      m.name ++ "_" := by
  have hf : (ctx.scopeAt {} (arg :: rest)).parentField = (lastOf arg rest).name := by
    rcases eq_nil_or_concat' rest with rfl | ⟨front, last, rfl⟩
    · exact ctx.parentField_enter {} arg
    · rw [← cons_append, scopeAt_concat, parentField_enter]
      simp [lastOf]
  have hl : lastOf arg rest ∈ arg :: rest := by
    unfold lastOf
    cases hl : rest.getLast? with
    | none => exact mem_cons_self
    | some last => exact mem_cons_of_mem _ (mem_of_getLast? hl)
  have hn : (lastOf arg rest).name ≠ "" := (hns _ hl).1.1
  simp [resultName, hf, hn, String.append_assoc]

lemma text_toBlock (hns : Route.HasNames (arg :: rest)) :
    ((Layout.block (arg :: rest) m inner).toBlock ctx {}).text =
    subqueryText (bodyText (ctx.head arg rest m) (threadedText m (!inner.isEmpty))
      (Block.texts (Layout.toBlocks ctx {} inner)) ("_" ++ (lastOf arg rest).name ++ "_" ++
        m.name ++ "_")) := by
  have hem : (Layout.toBlocks ctx {} inner).isEmpty = inner.isEmpty := by
    cases inner <;> rfl
  rw [Layout.toBlock, Setting.blockIn, Block.text, hem, ctx.unwinding_eq_head hns,
    ctx.resultName_scopeAt hns]

/-- In a successful run without a statement at an argument, there is a block for each route that the
values open and no other, and the text of each block is given by its route: its unwind clauses, its
statement with the blocks inside, and the name of its count. -/
theorem blocks_have_heads {setting : Setting} {arguments : List ArgumentDef} (hnames : HasNames setting arguments)
    (harguments : ∀ argument ∈ arguments, memberIsComputed argument = false) {values : List (Name × Value)}
    (hkeys : HasDistinctKeys (.object values)) {text : String}
    (hrun : (blocksText setting arguments values "").outcome = .ok text) :
    ∃ layouts, text = Block.texts (Layout.toBlocks setting {} layouts) ∧
      (∀ route, route ∈ Layout.allRoutes layouts ↔ Opened setting arguments values route) ∧
      (HasUniformLists (.object values) →
        ∀ route, route ∈ Layout.allRoutes layouts ↔ Active setting arguments values route) ∧
      ∀ place ∈ Layout.allPlaces layouts, ∃ argument rest member inner,
        place = .block (argument :: rest) member inner ∧
        (place.toBlock setting {}).text =
          subqueryText (bodyText (setting.head argument rest member) (threadedText member (!inner.isEmpty))
            (Block.texts (Layout.toBlocks setting {} inner))
            ("_" ++ (lastOf argument rest).name ++ "_" ++ member.name ++ "_")) := by
  obtain ⟨keys, htext, hmem⟩ := exists_keys_of_blocksText hkeys hrun
  refine ⟨_, htext, hmem, ?_, ?_⟩
  · intro huniform route
    rw [hmem, active_iff huniform]
  · intro place hplace
    have hroute : place.route ∈ Layout.allRoutes
        (layoutWithin setting (levelLimit + 1) [] arguments keys) := by
      rw [← Layout.map_route_allPlaces]
      exact mem_map_of_mem hplace
    obtain ⟨hdeclared, _, hcomputed⟩ := (hmem _).mp hroute
    have hsteps := hnames.route hdeclared
    obtain ⟨above, member, inner⟩ := place
    cases above with
    | nil =>
      -- the route of this block is an argument with a statement
      obtain ⟨hmember, _⟩ := hdeclared
      have hstatement := (Route.isComputed_singleton member).mp hcomputed
      simp [harguments member hmember] at hstatement
    | cons argument rest =>
      exact ⟨argument, rest, member, inner, rfl, text_toBlock fun step hstep =>
        hsteps step (mem_append_left _ hstep)⟩

/-- In the sample the list `data` is unwound first on the way to `b`, and `c` is reached over the
variable of `b`. -/
theorem blocks_have_heads_sample :
    ∃ layouts, sampleText = Block.texts (Layout.toBlocks sampleSetting {} layouts) ∧
      [sampleData, sampleList] ∈ Layout.allRoutes layouts ∧
      (∀ place ∈ Layout.allPlaces layouts, ∃ argument rest member inner,
        place = .block (argument :: rest) member inner ∧
        (place.toBlock sampleSetting {}).text =
          subqueryText (bodyText (sampleSetting.head argument rest member) (threadedText member (!inner.isEmpty))
            (Block.texts (Layout.toBlocks sampleSetting {} inner))
            ("_" ++ (lastOf argument rest).name ++ "_" ++ member.name ++ "_"))) ∧
      sampleSetting.head sampleData [] sampleList = "UNWIND $data AS _data\n  UNWIND _data.b as BInput" ∧
      ∀ member ∈ (sampleTypes.get? "BInput").getD [],
        sampleSetting.head sampleData [sampleList] member = "UNWIND _BInput.c AS CInput" := by
  have hrun : (blocksText sampleSetting sampleArguments sampleValues "").outcome = .ok sampleText :=
    ok_of_toOption (by decide +kernel)
  obtain ⟨layouts, htext, hopened, _, hheads⟩ :=
    blocks_have_heads hasNames_sample (by decide) hasDistinctKeys_sample hrun
  refine ⟨layouts, htext, (hopened _).mpr ?_, hheads, by decide +kernel, by decide +kernel⟩
  refine ⟨⟨mem_cons_self, _, rfl, by simp, _, rfl, trivial⟩, ?_, [sampleData], sampleList,
    rfl, by decide⟩
  exact ⟨_, rfl, _, mem_cons_of_mem _ mem_cons_self, _, rfl, _, mem_cons_self, trivial⟩

end GraphApi.Nested
