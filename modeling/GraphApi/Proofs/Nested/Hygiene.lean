import GraphApi.Proofs.Nested.SafeBlock
import GraphApi.Proofs.Nested.Unwinding

/-!
# Blocks keep to themselves

If the statement of each member that gets a block is self-contained, the blocks are safe
(`Layout.isSafe_toBlocks`). Main statement: `blocks_keep_to_themselves`.
-/

namespace GraphApi.Nested

open Cypher Value List Layout IsPlainText

variable {scope : Scope} {fd type : Name} {m : ArgumentDef} {route above : Route} {ctx : Setting}
  {args : List ArgumentDef} {vals : Entries}

/-! ## Plain texts around the statements -/

/-- The expression for the values is plain, and so is the enclosing field. -/
structure Scope.IsPlain (scope : Scope) : Prop where
  expression : IsPlainText scope.expression
  parentField : ∀ c ∈ scope.parentField.toList, isNameChar c

lemma Scope.IsPlain.parameter (h : scope.IsPlain) (hf : IsName fd) (ht : IsName type)
    (isComputed uses : Bool) : IsPlainText (scope.parameter fd type isComputed uses) := by
  have hdot : IsPlainText "." := by decide
  unfold Scope.parameter
  split
  · split
    · exact .of_isName ht
    · exact .of_isName hf
  · split
    · exact (h.expression.append hdot).append (.of_isName hf)
    · split
      · split
        · exact h.expression
        · exact append (by decide) h.expression
      · exact ((append (by decide) h.expression).append hdot).append (.of_isName hf)

lemma Scope.IsPlain.unwindClause (h : scope.IsPlain) {param : String} (hpr : IsPlainText param)
    (hf : IsName fd) (ht : IsName type) (uses : Bool) :
    IsPlainText (scope.unwindClause param fd type uses) := by
  have hst : IsPlainText ("UNWIND " ++ param) := append (by decide) hpr
  have hpa : IsPlainText scope.parentField := fun c hc => isPlain_of_isNameChar (h.parentField c hc)
  unfold Scope.unwindClause
  split
  · exact (hst.append (by decide)).append (.of_isName ht)
  · split
    · -- the list is unwound first
      have hl : IsPlainText ("UNWIND " ++ param ++ " AS _" ++ scope.parentField) :=
        (hst.append (by decide)).append hpa
      have hi : IsPlainText ("UNWIND " ++ param ++ " AS _" ++ scope.parentField ++ "\n  UNWIND _" ++
          scope.parentField) := (hl.append (by decide)).append hpa
      exact (((hi.append (by decide)).append (.of_isName hf)).append (by decide)).append
        (.of_isName ht)
    · exact ((((hst.append (by decide)).append (.of_isName hf)).append (by decide)).append
        (.of_isName ht))

lemma Scope.IsPlain.enter (h : scope.IsPlain) (ctx : Setting) (hn : IsName m.name)
    (ht : IsName m.type.base) : (ctx.enter scope m).IsPlain := by
  unfold Setting.enter
  split
  · exact ⟨.of_isName ht, hn.2⟩
  · exact ⟨h.parameter hn ht _ _, hn.2⟩

lemma Scope.IsPlain.scopeAt (h : scope.IsPlain) (ctx : Setting)
    (hns : route.HasNames) : (ctx.scopeAt scope route).IsPlain := by
  induction route generalizing scope with
  | nil => exact h
  | cons m rest ih =>
    obtain ⟨hn, ht⟩ := hns m mem_cons_self
    exact ih (h.enter ctx hn ht) (forall_mem_cons.mp hns).2

lemma Scope.IsPlain.isResultName (h : scope.IsPlain) (hf : IsName fd) :
    IsResultName (scope.resultName fd) := by
  have hpa : IsLetters (if scope.parentField = "" then ""
      else scope.parentField ++ "_").toList := by
    intro c hc
    split at hc
    · simp at hc
    · rw [String.toList_append, mem_append] at hc
      rcases hc with hc | hc
      · exact h.parentField c hc
      · exact (by decide : IsName "_").2 c hc
  refine ⟨(if scope.parentField = "" then "" else scope.parentField ++ "_").toList ++
    (fd.toList ++ ['_']), ?_, ?_⟩
  · simp [Scope.resultName]
  · intro c hc
    rw [mem_append, mem_append, mem_singleton] at hc
    rcases hc with hc | hc | rfl
    · exact hpa c hc
    · exact hf.2 c hc
    · decide

/-! ## The blocks of a layout -/

/-- The members of the route have names, and the statement of the last one is self-contained. -/
def Route.IsClean (route : Route) : Prop :=
  route.HasNames ∧ ∀ above member, route = above ++ [member] →
    SelfContained (statementText member).toList

lemma isSafe_blockIn {start : Scope} (hst : start.IsPlain) (hcl : Route.IsClean (above ++ [m]))
    {inner : List Block} (hin : ∀ block ∈ inner, block.IsSafe) :
    (ctx.blockIn (ctx.scopeAt start above) m inner).IsSafe := by
  obtain ⟨hns, hsm⟩ := hcl
  obtain ⟨hn, ht⟩ := hns m (by simp)
  have hsc := hst.scopeAt ctx fun step hsp => hns step (mem_append_left _ hsp)
  have hty : IsPlainText m.type.base := .of_isName ht
  refine .subquery ?_ ?_ (hsc.isResultName hn) hin
  · exact hsc.unwindClause (hsc.parameter hn ht _ _) hn ht _
  · unfold threadedText
    split
    next threaded hth =>
      rw [String.toList_ofList]
      exact (hsm above m rfl).threadName hty hth
    · exact selfContained_iff_run.mpr ⟨.code, rfl, rfl⟩

/-- Layouts of self-contained statements give safe blocks. -/
theorem Layout.isSafe_toBlocks {start : Scope} (hst : start.IsPlain) (ls : List Layout)
    (hcl : ∀ route ∈ allRoutes ls, route.IsClean) :
    ∀ block ∈ toBlocks ctx start ls, block.IsSafe := by
  induction ls using forest_induction with
  | nil => simp [toBlocks]
  | cons above m inner rest ihInner ihRest =>
    simp only [allRoutes, routes, cons_append, forall_mem_cons, forall_mem_append] at hcl
    obtain ⟨hhe, hin, hr⟩ := hcl
    rw [toBlocks, toBlock, forall_mem_cons]
    exact ⟨isSafe_blockIn hst hhe (ihInner hin), ihRest hr⟩

/-! ## The blocks of a run -/

lemma CanFollow.start {es : Entries} {start rest : List Name}
    (h : CanFollow es (start ++ rest)) : CanFollow es start := by
  induction start generalizing es with
  | nil => trivial
  | cons name os ih =>
    obtain ⟨value, hv, object, hobj, hos⟩ := h
    exact ⟨value, hv, object, hobj, ih hos⟩

lemma Opened.start {start : Route} (h : Opened ctx args vals route)
    (hst : StartsProperly start route) (hcm : start.IsComputed) : Opened ctx args vals start := by
  obtain ⟨m, rest, rfl⟩ := hst
  obtain ⟨hd, hfo, _⟩ := h
  refine ⟨hd.of_append, ?_, hcm⟩
  rw [Route.names, map_append] at hfo
  exact hfo.start

lemma Layout.map_route_sublist (ls : List Layout) :
    (ls.map Layout.route).Sublist (allRoutes ls) := by
  induction ls with
  | nil => simp [allRoutes]
  | cons layout rest ih =>
    obtain ⟨above, m, inner⟩ := layout
    exact (ih.trans (sublist_append_right _ _)).cons_cons _

/-- The block is among the blocks or nested in one of them, at any depth. -/
inductive Block.Within (block : Block) : List Block → Prop
  | here {blocks : List Block} (hblock : block ∈ blocks) : Within block blocks
  | inside {blocks : List Block} {outer : Block} (houter : outer ∈ blocks)
    (hinner : Within block outer.inner) : Within block blocks

lemma Block.IsSafe.of_within {block : Block} {blocks : List Block} (h : Block.Within block blocks)
    (hbl : ∀ other ∈ blocks, other.IsSafe) : block.IsSafe := by
  induction h with
  | here hb => exact hbl block hb
  | inside hou _ ih =>
    cases hbl _ hou with
    | subquery _ _ _ hin => exact ih hin

lemma Opened.isClean (h : Opened ctx args vals route) (hns : HasNames ctx args)
    (hst : ∀ above m stmt, Opened ctx args vals (above ++ [m]) →
      memberStatement m = .ok stmt → SelfContained stmt.toList) : route.IsClean := by
  refine ⟨hns.route h.1, ?_⟩
  rintro above m rfl
  unfold statementText
  split
  next stmt hsm => exact hst above m stmt h hsm
  · decide

/-- If the statements of the members that get a block are self-contained, so is the text of the
blocks, and its clauses are the blocks at the top, one for each route that the values open without a
statement before its end. Between the brackets of any block stand the clauses of its own, then the
blocks nested in it, then the clause that returns. -/
theorem blocks_keep_to_themselves {setting : Setting} {arguments : List ArgumentDef}
    (hnames : HasNames setting arguments) (hdistinct : DistinctNames setting arguments) {values : List (Name × Value)}
    (hkeys : HasDistinctKeys (.object values)) {expression text : String} (hexpression : IsPlainText expression)
    (hstatements : ∀ above member statement, Opened setting arguments values (above ++ [member]) →
      memberStatement member = .ok statement → SelfContained statement.toList)
    (hrun : (blocksText setting arguments values expression).outcome = .ok text) :
    ∃ layouts, text = Block.texts (Layout.toBlocks setting { expression } layouts) ∧
      (layouts.map Layout.route).Nodup ∧
      (∀ route, route ∈ layouts.map Layout.route ↔
        Opened setting arguments values route ∧ ∀ start, StartsProperly start route → ¬ start.IsComputed) ∧
      SelfContained text.toList ∧
      (∀ c ∈ (split text.toList).preamble, Text.isBlank c) ∧
      outline text.toList = layouts.map (fun layout => (layout.toBlock setting { expression }).clause) ∧
      (∀ block, Block.Within block (Layout.toBlocks setting { expression } layouts) →
        SelfContained block.body.toList ∧ outline block.body.toList =
          outline (block.own.toList ++ ['\n']) ++ (block.inner.map Block.clause ++ [block.lastClause])) ∧
      (HasUniformLists (.object values) →
        ∀ route, Opened setting arguments values route ↔ Active setting arguments values route) := by
  obtain ⟨keys, htext, hmem⟩ := exists_keys_of_blocksText hkeys hrun
  have hlays := laysOut_layoutWithin hdistinct hmem fun route hroute => hroute.2.2
  -- of the layout only its routes and their order matter from here on
  generalize layoutWithin setting (levelLimit + 1) [] arguments keys = layouts at htext hmem hlays
  have hstart : Scope.IsPlain { expression } := ⟨hexpression, by simp⟩
  have hsafe : ∀ block ∈ Layout.toBlocks setting { expression } layouts, block.IsSafe :=
    isSafe_toBlocks hstart layouts fun route hroute =>
      Opened.isClean ((hmem route).mp hroute) hnames hstatements
  have hclauses : HasClauses text.toList
      (layouts.map fun layout => (layout.toBlock setting { expression }).clause) := by
    have hblocks := hasClauses_texts hsafe .nil
    rw [append_nil, append_nil, ← htext, Layout.toBlocks_eq_map, map_map] at hblocks
    exact hblocks
  refine ⟨layouts, htext, ?_, ?_, ?_, hclauses.preamble, hclauses.outline_eq, ?_, ?_⟩
  · have hroutes : (allRoutes layouts).Nodup :=
      List.Pairwise.of_map Route.names (fun _ _ hne heq => hne (congrArg _ heq)) hlays.distinct
    exact (Layout.map_route_sublist layouts).nodup hroutes
  · intro route
    rw [mem_map, hlays.top]
    constructor
    · rintro ⟨hopened, hnone⟩
      exact ⟨hopened, fun start hproper hcomputed =>
        hnone start (Opened.start hopened hproper hcomputed) hproper⟩
    · rintro ⟨hopened, hnone⟩
      exact ⟨hopened, fun start hstarted hproper => hnone start hproper hstarted.2.2⟩
  · obtain ⟨last, hlast, hscan⟩ :=
      Block.run_texts (fun block hblock => (hsafe block hblock).run_body)
        (rfl : Mode.code.isSettled) 0
    rw [htext]
    exact selfContained_iff_run.mpr ⟨last, hlast, hscan⟩
  · intro block hblock
    have hblock := Block.IsSafe.of_within hblock hsafe
    exact ⟨hblock.selfContained_body, hblock.outline_body⟩
  · intro huniform route
    exact (active_iff huniform).symm

/-! ## Statements with comments and quotation marks -/

lemma Declares.last_mem {ms : List ArgumentDef} (h : Declares ctx ms (above ++ [m])) :
    m ∈ ms ∨ ∃ type below, ctx.members type = some below ∧ m ∈ below := by
  induction above generalizing ms with
  | nil => exact .inl h.1
  | cons fst rest ih =>
    obtain ⟨_, below, hbe, hr⟩ := h
    rcases ih hr with hm | hfo
    · exact .inr ⟨_, below, hbe, hm⟩
    · exact .inr hfo

def commentedMember : ArgumentDef :=
  { name := "b", type := .list (.named "BInput" false) false,
    directives := [sampleStatement "WITH BInput, '\x7b' AS mark MERGE (b:B \x7bmark: mark\x7d) // keep \x7b"] }

def commentedTypes : NameMap (List ArgumentDef) :=
  [("AInput", [commentedMember]),
   ("BInput",
    [{ name := "c", type := .named "CInput" false,
       directives := [sampleStatement "MERGE (c) /* ( */ // RETURN c"] }]),
   ("CInput", [{ name := "name", type := .named "String" false }])]

def commentedSetting : Setting := { members := commentedTypes.get? }

def commentedArgument : ArgumentDef := { name := "data", type := .named "AInput" false }

def commentedValues : Entries :=
  [("data", .object [("b", .list [.object [("c", .object [("name", .text "x")])]])])]

def commentedText : String :=
  "\nCALL \x7b\n  WITH *\n  UNWIND $data.b AS BInput" ++
  "\n  WITH BInput, '\x7b' AS mark MERGE (b:B \x7bmark: mark\x7d) // keep \x7b\nWITH *, BInput AS _BInput" ++
  "\nCALL \x7b\n  WITH *\n  UNWIND _BInput.c AS CInput\n  MERGE (c) /* ( */ // RETURN c" ++
  "\n  RETURN COUNT(*) AS _b_c_\n\x7d\n  RETURN COUNT(*) AS _data_b_\n\x7d"

/-- Brackets in quoted texts and comments do not open anything, and the comments end with their
lines. -/
theorem commented_blocks_keep_to_themselves :
    (blocksText commentedSetting [commentedArgument] commentedValues "").outcome = .ok commentedText ∧
      SelfContained commentedText.toList ∧
      ∃ layouts : List Layout, [commentedArgument, commentedMember] ∈ layouts.map Layout.route ∧
        outline commentedText.toList =
          layouts.map fun layout => (layout.toBlock commentedSetting { expression := "" }).clause := by
  have hrun : (blocksText commentedSetting [commentedArgument] commentedValues "").outcome =
      .ok commentedText :=
    ok_of_toOption (by decide +kernel)
  have hnames : HasNames commentedSetting [commentedArgument] := .of_types (by decide +kernel)
  have hdistinct : DistinctNames commentedSetting [commentedArgument] := .of_types (by decide)
  have hkeys : HasDistinctKeys (.object commentedValues) := .of_parts (by decide +kernel)
  have hchecked : ∀ member ∈ commentedArgument :: commentedTypes.flatMap (·.2),
      (memberStatement member).toOption.all (fun statement => SelfContained statement.toList) := by
    decide +kernel
  obtain ⟨layouts, _, _, htop, hself, _, houtline, _⟩ :=
    blocks_keep_to_themselves hnames hdistinct hkeys (by decide)
      (fun above member statement hopened hstatement => by
      have hmember : member ∈ commentedArgument :: commentedTypes.flatMap (·.2) := by
        rcases hopened.1.last_mem with hmember | ⟨type, below, hbelow, hmember⟩
        · exact mem_cons.mpr (Or.inl (mem_singleton.mp hmember))
        · exact mem_cons_of_mem _ (mem_flatMap.mpr ⟨_, NameMap.mem_of_get? hbelow, hmember⟩)
      have hall := hchecked member hmember
      rw [hstatement] at hall
      simpa [Except.toOption] using hall) hrun
  refine ⟨hrun, hself, layouts, (htop _).mpr ⟨⟨?_, ?_, ?_⟩, ?_⟩, houtline⟩
  · exact ⟨mem_cons_self, _, rfl, mem_cons_self, _, rfl, trivial⟩
  · exact ⟨_, rfl, _, mem_cons_self, _, rfl, _, mem_cons_self, trivial⟩
  · exact ⟨[commentedArgument], commentedMember, rfl, by decide⟩
  · -- the only proper start that is not empty ends with the argument, which has no statement
    rintro start ⟨member, rest, hroute⟩ ⟨above, last, rfl, hlast⟩
    cases above with
    | nil =>
      rw [← (cons.inj hroute).1] at hlast
      revert hlast
      decide
    | cons first others =>
      have hlength := congrArg length hroute
      simp only [length_cons, length_append, length_nil] at hlength
      omega

end GraphApi.Nested
