import GraphApi.Proofs.Cypher.Threading
import GraphApi.Proofs.Nested.Layout

/-!
# How a run ends

A run succeeds, gives up at the first route with as many members as there are levels, or meets a
statement that it cannot read (`blocksWithin_ends`). If it succeeds, the blocks are those of the
layout (`eq_layout_of_blocksWithin`), and routes are shorter than the levels
(`length_lt_of_chains`).
-/

namespace GraphApi

open List Run

inductive Fault.IsReading : Fault → Prop
  | stray (shape : Shape) : IsReading (.strayStatement shape)
  | long : IsReading .longNumber
  | short : IsReading .shortText

namespace Nested

variable {ctx : Setting} {levels : Nat} {members below : List ArgumentDef}
  {keys keysBelow : NameMap Value}
  {scope : Scope} {m : ArgumentDef} {cause : Fault} {route : Route} {name type : Name}
  {within : List ArgumentDef → NameMap Value → Scope → Run Notice Fault (List Block)}

/-! ## Chains -/

def chains (ctx : Setting) : Nat → List ArgumentDef → NameMap Value → List Route
  | 0, _, _ => [[]]
  | levels + 1, members, keys => members.flatMap fun member =>
    match ctx.members member.type.base, keysUnder keys member.name with
    | some below, some keysBelow => (chains ctx levels below keysBelow).map (member :: ·)
    | _, _ => []

lemma mem_chains : route ∈ chains ctx levels members keys ↔
    route.length = levels ∧ Declares ctx members route ∧ HasPath keys route.names := by
  induction levels generalizing members keys route with
  | zero =>
    cases route with
    | nil => exact ⟨fun _ => ⟨rfl, trivial, trivial⟩, fun _ => mem_singleton_self _⟩
    | cons m rest => simp [chains]
  | succ levels ih =>
    rw [chains, mem_flatMap]
    constructor
    · rintro ⟨m, hm, h⟩
      split at h
      next below keysBelow hbe hks =>
        obtain ⟨rest, hr, rfl⟩ := mem_map.mp h
        obtain ⟨hlen, hd, hp⟩ := ih.mp hr
        exact ⟨by simp [hlen], ⟨hm, below, hbe, hd⟩, keysBelow, hks, hp⟩
      · cases h
    · rintro ⟨hlen, hd, hp⟩
      cases route with
      | nil => simp at hlen
      | cons m rest =>
        obtain ⟨hm, below, hbe, hr⟩ := hd
        obtain ⟨keysBelow, hks, hp⟩ := hp
        refine ⟨m, hm, ?_⟩
        rw [hbe, hks]
        exact mem_map_of_mem (ih.mpr ⟨by simpa using hlen, hr, hp⟩)

/-- If no chain of members is as long as the levels, every declared route is shorter. -/
theorem length_lt_of_chains (h : chains ctx levels members keys = [])
    (hd : Declares ctx members route) (hp : HasPath keys route.names) : route.length < levels := by
  induction levels generalizing members keys route with
  | zero => cases h
  | succ levels ih =>
    cases route with
    | nil => simp
    | cons m rest =>
      obtain ⟨hm, below, hbe, hr⟩ := hd
      obtain ⟨keysBelow, hks, hpb⟩ := hp
      have hno := flatMap_eq_nil_iff.mp h m hm
      rw [hbe, hks] at hno
      have hlen := ih (map_eq_nil_iff.mp hno) hr hpb
      simpa using hlen

/-! ## Statements that can be read -/

/-- What is read for a member in a scope can be read: the statement of the mutation, for an argument
that is a parameter of its own, the statement of the member, and the clauses of the latter that are
changed. -/
structure Setting.CanRead (ctx : Setting) (scope : Scope) (member : ArgumentDef) : Prop where
  root : scope.isRoot → scope.expression = "" → ∃ content, readStatement ctx.root = .ok content
  own : memberIsComputed member →
    checkStatement member.directives = .ok () ∧ ∃ stmt, memberStatement member = .ok stmt ∧
      (Cypher.split stmt.toList).isReadable

def ReadsAll (ctx : Setting) : Nat → List ArgumentDef → NameMap Value → Scope → Prop
  | 0, _, _, _ => True
  | levels + 1, members, keys, scope => ∀ member ∈ members,
    match ctx.members member.type.base, keysUnder keys member.name with
    | some below, some keysBelow =>
      ctx.CanRead scope member ∧ ReadsAll ctx levels below keysBelow (ctx.enter scope member)
    | _, _ => True

lemma isReading_of_readItems {quote : Option String} {items : List Value}
    (h : readItems quote items = .error cause) : cause.IsReading := by
  -- the item after a backslash is skipped, so the induction is on the length
  induction hlen : items.length using Nat.strongRecOn generalizing quote items with
  | ind length ih =>
    cases items with
    | nil => cases h
    | cons item rest =>
      have hr : ∀ {next : Option String}, readItems next rest = .error cause → cause.IsReading :=
        fun hnx => ih rest.length (by simp [← hlen]) hnx rfl
      cases quote with
      | none =>
        cases item with
        | text content =>
          by_cases hco : quoteRuns.contains content
          · exact hr ((if_pos hco).symm.trans h)
          · cases (if_neg hco).symm.trans h
            exact .stray _
        | _ =>
          rw [readItems] at h
          · cases h
            exact .stray _
          · simp
      | some mark =>
        cases item with
        | text content =>
          unfold readItems at h
          by_cases hq : (content = "\\" && mark ≠ "`")
          · have hsk := (if_pos hq).symm.trans h
            cases rest with
            | nil => cases hsk
            | cons _ os => exact ih os.length (by simp only [← hlen, length_cons]; omega) hsk rfl
          · exact hr ((if_neg hq).symm.trans h)
        | _ =>
          rw [readItems] at h
          · exact hr h
          · simp

lemma isReading_of_readStatement {value : Value} (h : readStatement value = .error cause) :
    cause.IsReading := by
  unfold readStatement at h
  split at h
  · cases h
  next items =>
    cases his : readItems none items with
    | ok => simp [his, Except.map] at h
    | error found =>
      obtain rfl : found = cause := by simpa [his, Except.map] using h
      exact isReading_of_readItems his
  · cases h
  · cases h
    exact .stray _
  · cases h
    exact .stray _

lemma isReading_of_memberStatement (h : memberStatement m = .error cause) : cause.IsReading := by
  unfold memberStatement at h
  dsimp only at h
  split at h
  · rcases bind_eq_error_iff.mp h with hrd | ⟨content, _, h⟩
    · exact isReading_of_readStatement hrd
    · cases content with
      | some content => cases h
      | none =>
        cases h
        exact .stray _
  · cases h

lemma isReading_of_checkStatement {dirs : List Directive} (h : checkStatement dirs = .error cause) :
    cause.IsReading := by
  unfold checkStatement checkReadable at h
  dsimp only at h
  split at h
  · cases h
  · cases h
    exact .long

lemma usesListVariable_error (h : ctx.usesListVariable scope name type = .error cause) :
    cause.IsReading ∧ scope.isRoot ∧ scope.expression = "" ∧
      readStatement ctx.root = .error cause := by
  unfold Setting.usesListVariable Setting.unwinds at h
  split at h
  next hre =>
    rcases bind_eq_error_iff.mp h with hrd | ⟨content, _, h⟩
    · simp only [Bool.and_eq_true, decide_eq_true_eq] at hre
      exact ⟨isReading_of_readStatement hrd, hre.1, hre.2, hrd⟩
    · cases content <;> cases h
  · cases h

lemma root_of_usesListVariable {uses : Bool} (h : ctx.usesListVariable scope name type = .ok uses)
    (hr : scope.isRoot) (hex : scope.expression = "") :
    ∃ content, readStatement ctx.root = .ok content := by
  rw [Setting.usesListVariable, hr, hex] at h
  obtain ⟨content, hrd, _⟩ := bind_eq_ok_iff.mp h
  exact ⟨content, hrd⟩

/-! ## How a run ends -/

/-- A run that starts below the path gives the result if there are no chains and it can read
everything; it gives up at the first chain; or it fails because it cannot read everything. -/
inductive Ends {α : Type} (path : List Name) (chains : List Route) (reads : Prop) (result : α) :
    Except Fault α → Prop
  | succeeds (hchains : chains = []) (hreads : reads) : Ends path chains reads result (.ok result)
  | stops (chain : Route) (hchain : chains.head? = some chain) :
      Ends path chains reads result
        (.error (.translation (.tooDeep levelLimit (path ++ chain.names))))
  | fails (cause : Fault) (hcause : cause.IsReading) (hreads : ¬ reads) :
      Ends path chains reads result (.error cause)

lemma blockStatement_outcome (stmt : String) (type : Name) (hasNested : Bool) :
    (blockStatement stmt type hasNested).outcome =
      (Cypher.threadName stmt.toList type.toList hasNested).map String.ofList := by
  unfold blockStatement
  cases Cypher.threadName stmt.toList type.toList hasNested with
  | error cause => rfl
  | ok threaded =>
    dsimp only [Run.ofExcept]
    split <;> rfl

/-- A member ends as what is below it ends, unless something that is read for it cannot be read: the
statement of the mutation, which comes first, or its own, which is looked up before what is below it
and read and changed after that. -/
lemma memberBlocks_ends {within : List ArgumentDef → NameMap Value → Scope →
    Run Notice Fault (List Block)}
    (hbe : ctx.members m.type.base = some below) (hks : keysUnder keys m.name = some keysBelow)
    {deeper : List Route} {reads : Prop} {inner : List Block}
    (h : Ends (scope.path ++ [m.name]) deeper reads inner
      (within below keysBelow (ctx.enter scope m)).outcome) :
    Ends scope.path (deeper.map (m :: ·)) (ctx.CanRead scope m ∧ reads)
      (if memberIsComputed m then [ctx.blockIn scope m inner] else inner)
      (memberBlocks ctx within keys scope m).outcome := by
  have hst {chain : Route} (hcn : deeper.head? = some chain) {res : List Block} :
      Ends scope.path (deeper.map (m :: ·)) (ctx.CanRead scope m ∧ reads) res
        (.error (.translation (.tooDeep levelLimit (scope.path ++ [m.name] ++ chain.names)))) := by
    simpa [Route.names] using Ends.stops (m :: chain) (by simp [hcn])
  unfold memberBlocks
  rw [hbe, hks]
  rw [bind_outcome]
  -- the cases come in the order in which the run reads: whatever fails first ends it
  cases hus : ctx.usesListVariable scope m.name m.type.base with
  | error cause =>
    obtain ⟨hca, hr, hex, hrd⟩ := usesListVariable_error hus
    refine .fails cause hca fun hall => ?_
    obtain ⟨content, hco⟩ := hall.1.root hr hex
    rw [hrd] at hco
    cases hco
  | ok uses =>
    have hr := root_of_usesListVariable hus
    have huv : ctx.usesVariable scope m = uses := by simp [Setting.usesVariable, hus]
    cases hcm : memberIsComputed m with
    | false =>
      simp only [Run.ofExcept, Setting.enter, hcm, huv, Bool.false_eq_true, if_false] at h ⊢
      generalize (within below keysBelow _).outcome = outcome at h ⊢
      cases h with
      | stops chain hcn => exact hst hcn
      | fails cause hca hre => exact .fails cause hca fun hall => hre hall.2
      | succeeds hch hre =>
        exact .succeeds (by simp [hch]) ⟨⟨hr, fun h => by simp [hcm] at h⟩, hre⟩
    | true =>
      simp only [Run.ofExcept, bind_outcome, if_true, Setting.enter, hcm] at h ⊢
      cases hcc : checkStatement m.directives with
      | error cause =>
        refine .fails cause (isReading_of_checkStatement hcc) fun hall => ?_
        rw [(hall.1.own hcm).1] at hcc
        cases hcc
      | ok =>
        generalize (within below keysBelow _).outcome = outcome at h ⊢
        cases h with
        | stops chain hcn => exact hst hcn
        | fails cause hca hre => exact .fails cause hca fun hall => hre hall.2
        | succeeds hch hre =>
          cases hsm : memberStatement m with
          | error cause =>
            refine .fails cause (isReading_of_memberStatement hsm) fun hall => ?_
            obtain ⟨stmt, hok, _⟩ := (hall.1.own hcm).2
            rw [hsm] at hok
            cases hok
          | ok stmt =>
            have hth := Cypher.threadName_eq stmt.toList m.type.base.toList !inner.isEmpty
            simp only [blockStatement_outcome]
            cases hrd : (Cypher.split stmt.toList).isReadable with
            | false =>
              rw [hth, hrd]
              refine .fails .shortText .short fun hall => ?_
              obtain ⟨_, hok, hread⟩ := (hall.1.own hcm).2
              rw [hsm] at hok
              cases hok
              rw [hrd] at hread
              cases hread
            | true =>
              rw [hrd, if_pos rfl] at hth
              have hb : ctx.blockIn scope m inner = .subquery (scope.unwindClause
                  (scope.parameter m.name m.type.base true uses) m.name m.type.base uses)
                  (String.ofList (Cypher.threadedName stmt.toList m.type.base.toList
                    !inner.isEmpty))
                  (scope.resultName m.name) inner := by
                simp [Setting.blockIn, Setting.unwinding, huv, threadedText,
                  statementText, hsm, hth]
              rw [hb, hth]
              exact .succeeds (by simp [hch]) ⟨⟨hr, fun _ => ⟨hcc, stmt, hsm, hrd⟩⟩, hre⟩

lemma eachJoined_ends {α β : Type} {path : List Name} {step : α → Run Notice Fault (List β)}
    {found : α → List Route} {reads : α → Prop} {parts : α → List β} {items : List α}
    (h : ∀ item ∈ items, Ends path (found item) (reads item) (parts item) (step item).outcome) :
    Ends path (items.flatMap found) (∀ item ∈ items, reads item) (items.flatMap parts)
      (eachJoined step items).outcome := by
  induction items with
  | nil => exact .succeeds rfl (by simp)
  | cons item rest ih =>
    have hr := ih (forall_mem_cons.mp h).2
    have hi := h item mem_cons_self
    rw [eachJoined, bind_outcome, flatMap_cons, flatMap_cons, forall_mem_cons]
    generalize (step item).outcome = outcome at hi ⊢
    cases hi with
    | stops chain hcn => exact .stops chain (by simp [hcn])
    | fails cause hca hre => exact .fails cause hca fun hall => hre hall.1
    | succeeds hch hre =>
      -- this step adds no chain, so the first one is that of the others
      rw [hch, nil_append]
      dsimp only
      rw [bind_outcome]
      generalize (eachJoined step rest).outcome = os at hr ⊢
      cases hr with
      | stops chain hcn => exact .stops chain hcn
      | fails cause hca hre => exact .fails cause hca fun hall => hre hall.2
      | succeeds hch' hre' => exact .succeeds hch' ⟨hre, hre'⟩

lemma Setting.path_enter (ctx : Setting) (scope : Scope) (m : ArgumentDef) :
    (ctx.enter scope m).path = scope.path ++ [m.name] := by
  unfold enter
  split <;> rfl

/-- How a run ends: with too deep a chain, with a statement it cannot read, or with blocks. -/
theorem blocksWithin_ends {start : Scope} {above : Route} :
    Ends (ctx.scopeAt start above).path (chains ctx levels members keys)
      (ReadsAll ctx levels members keys (ctx.scopeAt start above))
      (Layout.toBlocks ctx start (layoutWithin ctx levels above members keys))
      (blocksWithin ctx levels members keys (ctx.scopeAt start above)).outcome := by
  induction levels generalizing above members keys with
  | zero =>
    -- no level is left: the route itself is the chain
    have hp : (ctx.scopeAt start above).path = (ctx.scopeAt start above).path ++
        Route.names [] := by
      simp [Route.names]
    rw [blocksWithin, fail]
    conv => arg 5; rw [hp]
    exact .stops [] rfl
  | succ levels ih =>
    rw [blocksWithin, chains, Layout.toBlocks_eq_map, layoutWithin, map_flatMap]
    refine eachJoined_ends fun m _ => ?_
    unfold memberLayout
    cases hbe : ctx.members m.type.base with
    | none =>
      have hno : (memberBlocks ctx (blocksWithin ctx levels) keys (ctx.scopeAt start above)
          m).outcome = .ok [] := by simp [memberBlocks, hbe]
      rw [hno]
      exact .succeeds rfl trivial
    | some below =>
      cases hks : keysUnder keys m.name with
      | none =>
        have hno : (memberBlocks ctx (blocksWithin ctx levels) keys (ctx.scopeAt start above)
            m).outcome = .ok [] := by simp [memberBlocks, hbe, hks]
        rw [hno]
        exact .succeeds rfl trivial
      | some keysBelow =>
        have hin := @ih below keysBelow (above ++ [m])
        rw [ctx.scopeAt_concat, ctx.path_enter] at hin
        have hen := memberBlocks_ends hbe hks hin
        cases hcm : memberIsComputed m with
        | false => simpa [hcm, Layout.toBlocks_eq_map] using hen
        | true => simpa [hcm, Layout.toBlock] using hen

/-- The blocks of a successful run are those of the layout. -/
theorem eq_layout_of_blocksWithin {start : Scope} {above : Route} {blocks : List Block}
    (h : (blocksWithin ctx levels members keys (ctx.scopeAt start above)).outcome = .ok blocks) :
    blocks = Layout.toBlocks ctx start (layoutWithin ctx levels above members keys) ∧
      chains ctx levels members keys = [] := by
  have hen := @blocksWithin_ends ctx levels members keys start above
  rw [h] at hen
  cases hen with
  | succeeds hch hre => exact ⟨rfl, hch⟩

end Nested

end GraphApi
