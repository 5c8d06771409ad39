import GraphApi.Proofs.Nested.Hygiene

/-!
# The depth of a run

A run gives up at the first route with one member more than the levels allow, unless it comes across
a statement that cannot be read before (`depth_guard`).
-/

namespace GraphApi.Nested

open List

variable {setting : Setting} {levels : Nat} {members arguments below : List ArgumentDef}
  {keys keysBelow : NameMap Value} {scope : Scope} {m : ArgumentDef} {cause : Fault}

/-! ## Chains -/

lemma pairwise_precedes_chains {above : Route}
    (hms : members = setting.declaredBelow arguments above) :
    ((chains setting levels members keys).map (above ++ ·)).Pairwise
      (Precedes setting arguments) := by
  induction levels generalizing above members keys with
  | zero => simp [chains]
  | succ levels ih =>
    rw [chains, map_flatMap, pairwise_flatMap]
    constructor
    · intro m _
      split
      next below keysBelow hbe hks =>
        have hnx : below = setting.declaredBelow arguments (above ++ [m]) := by
          simp [Setting.declaredBelow, hbe]
        simpa [Function.comp_def] using ih hnx
      · exact .nil
    · -- two routes over different members part there
      rw [pairwise_iff_forall_sublist]
      intro m other hsu fst h1 snd h2
      split at h1 <;> split at h2 <;>
        simp only [map_nil, not_mem_nil, map_map] at h1 h2
      obtain ⟨rest, -, rfl⟩ := mem_map.mp h1
      obtain ⟨rest', -, rfl⟩ := mem_map.mp h2
      exact .inr ⟨above, m, other, rest, rest', rfl, rfl, hms ▸ hsu⟩

lemma blocksText_ends {vals : Entries} (hrd : keysOfEntries vals = .ok keys) (expression : String) :
    Ends [] (chains setting 33 arguments keys) (ReadsAll setting 33 arguments keys { expression })
      (Block.texts (Layout.toBlocks setting { expression }
        (layoutWithin setting 33 [] arguments keys)))
      (blocksText setting arguments vals expression).outcome := by
  have hen := @blocksWithin_ends setting 33 arguments keys { expression } []
  rw [setting.scopeAt_nil] at hen
  have hout : (blocks setting arguments vals expression).outcome =
      (blocksWithin setting 33 arguments keys { expression }).outcome := by
    unfold blocks
    rw [Run.bind_outcome, hrd]
    rfl
  rw [blocksText, Run.bind_outcome, hout]
  generalize (blocksWithin setting 33 arguments keys { expression }).outcome = outcome at hen ⊢
  cases hen with
  | succeeds hch hre => exact .succeeds hch hre
  | stops chain hcn => exact .stops chain hcn
  | fails cause hca hre => exact .fails cause hca hre

/-- A run ends in one of three ways. It gives a text exactly if no route of 33 members is entered
and all statements that it reads can be read, their clauses that are changed included. It can fail
for its depth, and then names the first such route, or for a statement that cannot be read. If all
can be read, it fails for its depth exactly if there is such a route. -/
theorem depth_guard {values : List (Name × Value)} (hread : keysOfEntries values = .ok keys) (expression : String) :
    ((∃ text, (blocksText setting arguments values expression).outcome = .ok text) ↔
      chains setting 33 arguments keys = [] ∧ ReadsAll setting 33 arguments keys { expression }) ∧
    (∀ cause, (blocksText setting arguments values expression).outcome = .error cause →
      (∃ chain, (chains setting 33 arguments keys).head? = some chain ∧
        cause = .translation (.tooDeep 32 chain.names)) ∨
      cause.IsReading ∧ ¬ ReadsAll setting 33 arguments keys { expression }) ∧
    (ReadsAll setting 33 arguments keys { expression } → ∀ path,
      ((blocksText setting arguments values expression).outcome = .error (.translation (.tooDeep 32 path)) ↔
        ∃ chain, (chains setting 33 arguments keys).head? = some chain ∧ path = chain.names)) ∧
    (∀ chain, chain ∈ chains setting 33 arguments keys ↔
      chain.length = 33 ∧ Declares setting arguments chain ∧ HasPath keys chain.names) ∧
    (chains setting 33 arguments keys).Pairwise (Precedes setting arguments) := by
  have hends := @blocksText_ends setting arguments keys values hread expression
  have hordered := @pairwise_precedes_chains setting 33 arguments arguments keys [] rfl
  refine ⟨?_, ?_, ?_, fun _ => mem_chains, by simpa using hordered⟩
  · generalize (blocksText setting arguments values expression).outcome = outcome at hends ⊢
    cases hends with
    | succeeds hchains hreads => simp [hchains, hreads]
    | stops chain hchain =>
      have hne : chains setting 33 arguments keys ≠ [] := by
        intro h
        simp [h] at hchain
      simp [hne]
    | fails cause hcause hreads => simp [hreads]
  · intro cause h
    rw [h] at hends
    cases hends with
    | stops chain hchain => exact Or.inl ⟨chain, hchain, rfl⟩
    | fails _ hcause hreads => exact Or.inr ⟨hcause, hreads⟩
  · -- a run that can read everything fails for its depth or not at all
    intro hall path
    generalize (blocksText setting arguments values expression).outcome = outcome at hends ⊢
    cases hends with
    | succeeds hchains hreads => simp [hchains]
    | stops chain hchain =>
      constructor
      · intro h
        cases h
        exact ⟨chain, hchain, rfl⟩
      · rintro ⟨other, hother, rfl⟩
        rw [Option.some.inj (hother.symm.trans hchain)]
        rfl
    | fails cause hcause hreads => exact absurd hall hreads

/-! ## Trees in trees -/

lemma readsAll_of_canRead (hms : ∀ m ∈ members, ∀ scope, setting.CanRead scope m)
    (hts : ∀ type below, setting.members type = some below →
      ∀ m ∈ below, ∀ scope, setting.CanRead scope m) :
      ReadsAll setting levels members keys scope := by
  induction levels generalizing members keys scope with
  | zero => trivial
  | succ levels ih =>
    intro m hm
    split
    next below keysBelow hbe hks => exact ⟨hms m hm scope, ih (hts _ below hbe)⟩
    · trivial

def treeChildren : ArgumentDef :=
  { name := "children", type := .list (.named "TreeInput" false) false,
    directives := [sampleStatement "MERGE (t)"] }

/-- The members of a tree: a mark with the given statement, then the trees in it. -/
def treeMembers (stmt : Literal) : List ArgumentDef :=
  [{ name := "mark", type := .named "MarkInput" false,
     directives := [{ name := Mark.cypher.word, arguments := [("statement", stmt)] }] },
   treeChildren]

def treeSetting (stmt : Literal) : Setting where
  members := NameMap.get? [("TreeInput", treeMembers stmt), ("MarkInput", [])]

def treeArgument : ArgumentDef := { name := "tree", type := .named "TreeInput" false }

def treeIn : Nat → Entries
  | 0 => []
  | levels + 1 => [("children", .list [.object (treeIn levels)])]

def treeKeys : Nat → NameMap Value
  | 0 => []
  | levels + 1 => [("children", .object (treeKeys levels))]

/-- A tree with the given marks and further trees in it down to the thirty-third level. -/
def deepTree (marks : Entries) : Entries := [("tree", .object (marks ++ treeIn 32))]

def deepTreeKeys (marks : NameMap Value) :
    NameMap Value := [("tree", .object (marks ++ treeKeys 32))]

def deepTreeNames : List Name := "tree" :: replicate 32 "children"

/-- A tree of 33 levels is refused at the route of its members. -/
theorem depth_guard_tree :
    keysOfEntries (deepTree []) = .ok (deepTreeKeys []) ∧
    ReadsAll (treeSetting (.text "MERGE (m)" false)) 33 [treeArgument] (deepTreeKeys []) {} ∧
    (blocksText (treeSetting (.text "MERGE (m)" false)) [treeArgument] (deepTree []) "").outcome =
      .error (.translation (.tooDeep 32 deepTreeNames)) := by
  have hread : keysOfEntries (deepTree []) = .ok (deepTreeKeys []) := rfl
  have hall : ReadsAll (treeSetting (.text "MERGE (m)" false)) 33 [treeArgument]
      (deepTreeKeys []) {} := by
    refine readsAll_of_canRead ?_ ?_
    · intro member hmember scope
      obtain rfl := mem_singleton.mp hmember
      exact ⟨fun _ _ => ⟨_, rfl⟩, fun h => by cases h⟩
    · intro type below hbelow member hmember scope
      have htype := NameMap.mem_of_get? hbelow
      simp only [mem_cons, Prod.mk.injEq, not_mem_nil, or_false] at htype
      rcases htype with ⟨-, rfl⟩ | ⟨-, rfl⟩
      · rcases mem_cons.mp hmember with rfl | hmember
        · exact ⟨fun _ _ => ⟨_, rfl⟩, fun _ => ⟨rfl, _, rfl, by decide +kernel⟩⟩
        · obtain rfl := mem_singleton.mp hmember
          exact ⟨fun _ _ => ⟨_, rfl⟩, fun _ => ⟨rfl, _, rfl, by decide +kernel⟩⟩
      · cases hmember
  have hchain : (chains (treeSetting (.text "MERGE (m)" false)) 33 [treeArgument]
      (deepTreeKeys [])).head?.map Route.names = some deepTreeNames := by decide +kernel
  obtain ⟨chain, hhead, hnames⟩ := Option.map_eq_some_iff.mp hchain
  exact ⟨hread, hall, ((depth_guard hread "").2.2.1 hall _).mpr ⟨chain, hhead, hnames.symm⟩⟩

lemma error_of_swap {ε α : Type} {outcome : Except ε α} {cause : ε}
    (h : (match outcome with | .ok _ => none | .error found => some found) = some cause) :
    outcome = .error cause := by
  cases outcome with
  | ok res => simp at h
  | error found => exact congrArg _ (Option.some.inj h)

/-- A statement that cannot be read and comes before hides that a tree is too deep. -/
theorem unreadable_statement_before_depth :
    keysOfEntries (deepTree [("mark", .object [])]) = .ok (deepTreeKeys [("mark", .object [])]) ∧
    (∃ chain, chain.length = 33 ∧ Declares (treeSetting (.int "5")) [treeArgument] chain ∧
      HasPath (deepTreeKeys [("mark", .object [])]) chain.names) ∧
    (blocksText (treeSetting (.int "5")) [treeArgument] (deepTree [("mark", .object [])]) "").outcome =
      .error (.strayStatement .scalar) := by
  have hchain : (chains (treeSetting (.int "5")) 33 [treeArgument]
      (deepTreeKeys [("mark", .object [])])).isEmpty = false := by decide +kernel
  obtain ⟨chain, hmem⟩ := exists_mem_of_ne_nil _ (isEmpty_eq_false_iff.mp hchain)
  exact ⟨rfl, ⟨chain, mem_chains.mp hmem⟩, error_of_swap (by decide +kernel)⟩

end GraphApi.Nested
