import GraphApi.Proofs.Cypher.Rendering

/-!
# Variables that survive until they are handed on

A variable that is in scope before a statement stays in scope as long as the clauses that project
keep it; threading it is to keep it up to the last of them, which hands it on under another name
(`handsOn_threadName_iff`).
-/

namespace GraphApi.Cypher

open List Lexeme Statement Text IsProjection

variable {name proj statement : Chars} {item : List Chars} {cl : Clause} {clauses : List Clause}
  {repl : Nat → Option Chars} {place : Nat}

/-! ## Variables in scope -/

/-- Whether a variable that is in scope before a clause that projects still is after it. -/
def Projections.keeps (projections : Projections) (name : Chars) : Bool :=
  projections.items.contains [['*']] || projections.items.contains [name]

/-- The item that hands a variable on under a name with an underscore in front. -/
def exportItem (name : Chars) : List Chars := [name, ['A', 'S'], '_' :: name]

def projectionsIn (statement : Chars) : List Projections :=
  ((split statement).clauses.filter (·.keyword = .projecting)).map fun clause =>
    projectionsOf clause.text

/-- A variable that is in scope at the start is so up to the last of some clauses that project,
which hands it on; so its other name is in scope after them. -/
def HandsOn (name : Chars) (list : List Projections) : Prop :=
  ∃ front last, list = front ++ [last] ∧ (∀ projections ∈ front, projections.keeps name) ∧
    exportItem name ∈ last.items

lemma handsOn_append {front : List Projections} {last : Projections} :
    HandsOn name (front ++ [last]) ↔
    (∀ projs ∈ front, projs.keeps name) ∧ exportItem name ∈ last.items := by
  constructor
  · rintro ⟨front', last', heq, hke, hexp⟩
    obtain ⟨rfl, hl⟩ := append_inj' heq rfl
    obtain rfl : last = last' := by simpa using hl
    exact ⟨hke, hexp⟩
  · exact fun ⟨hke, hexp⟩ => ⟨front, last, rfl, hke, hexp⟩

/-- An item of a plain list: a star, a single name, or an expression under a name. -/
inductive IsPlainItem : List Chars → Prop
  | star : IsPlainItem [['*']]
  | single (word : Chars) : IsPlainItem [word]
  | renamed (first : Chars) (others : List Chars) (as word : Chars) :
    first ≠ ['*'] → upperChars as = ['A', 'S'] → IsPlainItem (first :: others ++ [as, word])

lemma IsPlainItem.eq_star {os : List Chars} (h : IsPlainItem (['*'] :: os)) : os = [] := by
  generalize hi : ['*'] :: os = item at h
  cases h with
  | star => exact (cons.inj hi).2
  | single word => exact (cons.inj hi).2
  | renamed fst more as word h1 _ => exact absurd (cons.inj hi).1.symm h1

/-! ## One clause -/

lemma head?_items_of_plain {trail word : Chars} (htr : IsBlanks trail)
    (hold : lexemes cl.text = Lexeme.word word :: lexemes (cl.body ++ trail))
    {list : List Lexeme} (hst : lexemes (cl.projectionText ++ trail) = sign '*' :: list)
    (hp : ∀ item ∈ (projectionsOf cl.text).items, IsPlainItem item) :
    (itemsOf (splitTail (sign '*' :: list)).1).head? = some [['*']] := by
  rw [Clause.projectionText] at hst
  have hl : lexemes (cl.body ++ trail) = distinctLexemes cl.body ++ sign '*' :: list := by
    rcases lexemes_distinct_cases htr cl.body with hl | ⟨_, os, more, _, _, hw⟩
    · rw [hl, hst]
    · rw [hst] at hw
      cases (cons.inj hw).1
  rw [hl] at hold
  rw [projectionsOf_of_lexemes hold fun _ => rfl] at hp
  rw [splitTail_sign] at hp ⊢
  obtain ⟨fst, _, _, hhe⟩ := exists_head?_itemsOf_star (splitTail list).1
  rw [hhe, (hp _ (mem_of_head? hhe)).eq_star]

section Clause

variable (hsp : cl.IsSplit) (hkw : cl.keyword = .projecting) (hn : IsVariable name)
include hsp hkw hn

lemma keeps_withProjection : (projectionsOf (withProjection cl.text name)).keeps name ↔
    (projects cl.projectionText name → (projectionsOf cl.text).keeps name) := by
  obtain ⟨word, trail, _, _, _, ⟨hfo, heq⟩ | ⟨hmi, after, hadd, hnew⟩⟩ :=
    hsp.withProjection_cases hkw hn .plain
  · rw [heq, hfo]
    simp
  · have hi : ∀ word ∈ [name], IsVariable word := by simpa using hn
    have hres := projectionsOf_of_lexemes hnew fun _ => hadd.not_distinct hi (by simp)
    refine ⟨fun _ hfo => absurd hfo (by simp [hmi]), fun _ => ?_⟩
    rw [hres, Projections.keeps]
    cases hst : cl.projectionText.head? == some '*' with
    | false =>
      rw [hst] at hadd
      simp [hadd.items_front hi (by simp)]
    | true =>
      rw [hst] at hadd
      have h1 := mem_of_head? (hadd.items_star hi (by simp)).1
      simp [h1]

lemma exports_withProjection (hp : ∀ item ∈ (projectionsOf cl.text).items, IsPlainItem item) :
    exportItem name ∈ (projectionsOf (withProjection cl.text (exportProjection name))).items ↔
      (projects cl.projectionText (exportProjection name) →
        exportItem name ∈ (projectionsOf cl.text).items) := by
  obtain ⟨word, trail, _, htr, hold, ⟨hfo, heq⟩ | ⟨hmi, after, hadd, hnew⟩⟩ :=
    hsp.withProjection_cases hkw hn .renamed
  · rw [heq, hfo]
    simp
  · have hi := renamed.isVariable hn
    have hres := projectionsOf_of_lexemes hnew fun _ => hadd.not_distinct hi (by simp)
    refine ⟨fun _ hfo => absurd hfo (by simp [hmi]), fun _ => ?_⟩
    rw [hres]
    cases hst : cl.projectionText.head? == some '*' with
    | false =>
      rw [hst] at hadd
      simp [hadd.items_front hi (by simp), exportItem]
    | true =>
      rw [hst] at hadd
      generalize hb : lexemes (cl.projectionText ++ trail) = pre at hadd
      cases hadd with
      | star list =>
        obtain ⟨_, hos⟩ := (Added.star list).items_star hi (by simp)
        obtain ⟨os, _, ha⟩ := hos (head?_items_of_plain htr hold hb hp)
        rw [ha]
        simp [exportItem]

end Clause

/-! ## The clauses that project -/

lemma pairwise_placed (kw : Keyword) (clauses : List Clause) :
    (placed kw 0 clauses).Pairwise (·.2 < ·.2) := by
  refine .filter _ (pairwise_map.mp ?_)
  rw [zipIdx_map_snd]
  exact pairwise_lt_range' 1

def readGroups (gs : List (Keyword × List Lexeme)) : List Projections :=
  (gs.filter (·.1 = .projecting)).map fun group => readProjections group.2.tail

lemma projectionsIn_eq_readGroups (statement : Chars) :
    projectionsIn statement = readGroups (groupLexemes [] (lexemes statement)).2 := by
  rw [← lexemes_split, projectionsIn, readGroups, filter_map, map_map]
  rfl

lemma readGroups_changedFrom (repl : Nat → Option Chars) (place : Nat) (clauses : List Clause) :
    readGroups ((changedFrom repl place clauses).map fun e => (e.1, lexemes e.2)) =
      (placed .projecting place clauses).map fun e => projectionsOf ((repl e.2).getD e.1.text) := by
  induction clauses generalizing place with
  | nil => rfl
  | cons cl rest ih =>
    have hr := ih (place + 1)
    rw [readGroups] at hr ⊢
    rw [changedFrom, map_cons, placed, zipIdx_cons]
    by_cases hkw : cl.keyword = .projecting
    · rw [filter_cons_of_pos (by simpa using hkw), map_cons, hr, filter_cons_of_pos (by simpa using hkw)]
      rfl
    · rw [filter_cons_of_neg (by simpa using hkw), hr, filter_cons_of_neg (by simpa using hkw)]
      rfl

/-! ## Whole statements -/

/-- A statement through which a name can be threaded: it is closed, the name is read as a variable,
the lists of projections are plain, no star at the end of one touches the next clause, and a clause
can start after its last word. -/
structure Threadable (statement name : Chars) : Prop where
  selfContained : SelfContained statement
  isFree : IsFree name
  plain : ∀ clause ∈ (split statement).clauses, clause.keyword = .projecting →
    ∀ item ∈ (projectionsOf clause.text).items, IsPlainItem item
  spaced : Spaced (split statement).clauses
  ends : needsExport statement true →
    Keyword.projecting.continues (lastWord [] (lexemes statement)) = false

lemma lexemes_exportClause (hn : IsVariable name) :
    lexemes ("WITH *, ".toList ++ exportProjection name) = word withLetters ::
      sign '*' :: sign ',' :: (exportItem name).map word := by
  have hend : EndsName [] := nofun
  have hi := (readsAs_space _).append (renamed.readsAs hn hend)
  have hl := (readsAs_star _).append ((readsAs_comma _).append hi)
  exact ((readsAs_withStart _).append hl).lexemes

/-- The clause that hands everything and a variable on starts after a word after which it does not
go on. -/
lemma grouped_exportClause (hn : IsFree name) {prev : Chars}
    (hpr : Keyword.projecting.continues prev = false) :
    Grouped prev [(.projecting, lexemes ("WITH *, ".toList ++ exportProjection name))] := by
  rw [lexemes_exportClause hn.toIsVariable]
  refine ⟨⟨_, _, rfl, ?_, rfl, rfl, quiet_words (renamed.isFree hn) _⟩, trivial⟩
  have hkw : Keyword.ofCapitals? (upperChars withLetters) = some .projecting := by decide
  simp [starts?, word, Word.starts?, hkw, hpr]

lemma mem_items_exportClause (hn : IsVariable name) :
    exportItem name ∈ (projectionsOf ("WITH *, ".toList ++ exportProjection name)).items := by
  have hi := renamed.isVariable hn
  have hst : (itemsOf (splitTail [sign '*']).1).head? = some [['*']] := by
    rfl
  obtain ⟨_, _, ha⟩ := ((Added.star []).items_star hi (by simp)).2 hst
  rw [append_nil] at ha
  have hrd : (projectionsOf ("WITH *, ".toList ++ exportProjection name)).items = itemsOf (splitTail
      (sign '*' :: sign ',' :: (exportItem name).map word)).1 := by
    rw [projectionsOf, lexemes_exportClause hn]
    rfl
  rw [hrd, exportItem, ha]
  simp

lemma groupLexemes_threadedName (h : Threadable statement name) :
    (groupLexemes [] (lexemes (threadedName statement name true))).2 =
      (split statement).changedLexemes ((split statement).changes name) ++
        if needsExport statement true then
          [(.projecting, lexemes ("WITH *, ".toList ++ exportProjection name))] else [] := by
  have had : AddsProjections name _ 0 (split statement).clauses :=
    adds_changes (split statement) ⟨_, .renamed⟩ ⟨_, .plain⟩
  obtain ⟨hre, hqu, hgp, heq⟩ := lexemes_render h.isFree had h.spaced
  unfold threadedName renderThread
  split
  next hne =>
    have hp : ∀ c ∈ name, isPlain c := fun c hc => isPlain_of_isNameChar (h.isFree.isNameChar c hc)
    have hrun := h.selfContained.run_render
      (adds_changes (split statement) (isPlain_exportProjection hp) hp)
    obtain ⟨last, hl, hse⟩ := selfContained_iff_run.mp h.selfContained
    rw [hse] at hrun
    obtain ⟨mode, hmo, htr⟩ := run_trimEnd hl hrun
    have hcs : SelfContained (trimEnd ((split statement).render _)) :=
      selfContained_iff_run.mpr ⟨mode, hmo, htr⟩
    -- the blanks at the end do not matter, and the new clause stands on a line of its own
    obtain ⟨bs, hbl, hsp⟩ := trimEnd_append
      ((split statement).render ((split statement).changes name))
    have hle := lexemes_append_line hcs ("WITH *, ".toList ++ exportProjection name)
    rw [← lexemes_append_blanks hcs.1 hbl, ← hsp] at hle
    have hl := grouped_exportClause h.isFree ((heq.continues _).symm.trans (h.ends hne))
    rw [hre, lastWord_append] at hl
    have hall := hgp.append hl
    have ht : ∀ text, text ++ "\nWITH *, ".toList ++ exportProjection name =
        text ++ '\n' :: ("WITH *, ".toList ++ exportProjection name) :=
          fun text => append_assoc _ _ _
    have hgr := groupLexemes_grouped hall
    rw [flatMap_append, flatMap_singleton] at hgr
    rw [ht, hle, hre, append_assoc, groupLexemes_quiet hqu, hgr]
  · rw [append_nil, ← lexemes_split]
    exact lexemes_split_render h.isFree had h.spaced

/-! ## Surviving -/

/-- What a clause that projects has to do at its place. The last one has the item that hands the
variable on if it is found in its text. The first one keeps the variable if the variable is found in
its text, and any other one keeps it. -/
def Thread.Passes (thread : Thread) (name : Chars) (place : Nat) (clause : Clause) : Prop :=
  if thread.exportAt = some place then
    projects clause.projectionText (exportProjection name) →
      exportItem name ∈ (projectionsOf clause.text).items
  else if thread.importAt = some place then
    projects clause.projectionText name → (projectionsOf clause.text).keeps name
  else (projectionsOf clause.text).keeps name

instance (thread : Thread) (name : Chars) (place : Nat) (clause : Clause) :
    Decidable (thread.Passes name place clause) :=
  inferInstanceAs (Decidable (ite _ _ _))

section Passes

variable (h : Threadable statement name) (hcl : (split statement).clauses[place]? = some cl)
  (hkw : cl.keyword = .projecting)
include h hcl hkw

lemma keeps_changes_iff (hexp : (split statement).thread.exportAt ≠ some place) :
    (projectionsOf (((split statement).changes name place).getD cl.text)).keeps name ↔
      (split statement).thread.Passes name place cl := by
  have ht : (split statement).textAt place = cl.text := by simp [textAt, hcl]
  rw [changes, if_neg hexp, ht, Thread.Passes, if_neg hexp]
  by_cases him : (split statement).thread.importAt = some place
  · rw [if_pos him, if_pos him, Option.getD_some]
    exact keeps_withProjection (isSplit_of_mem (mem_of_getElem? hcl)) hkw h.isFree.toIsVariable
  · rw [if_neg him, if_neg him, Option.getD_none]

lemma exports_changes_iff (hexp : (split statement).thread.exportAt = some place) :
    exportItem name ∈ (projectionsOf (((split statement).changes name place).getD cl.text)).items ↔
      (split statement).thread.Passes name place cl := by
  have ht : (split statement).textAt place = cl.text := by simp [textAt, hcl]
  have hm := mem_of_getElem? hcl
  rw [changes, if_pos hexp, ht, Thread.Passes, if_pos hexp, Option.getD_some]
  exact exports_withProjection (isSplit_of_mem hm) hkw h.isFree.toIsVariable (h.plain cl hm hkw)

end Passes

lemma eq_append_of_exportAt {places : List Nat} (h : (threadOf places).exportAt = some place) :
    ∃ front, places = front ++ [place] := by
  unfold threadOf at h
  split at h
  · cases h
  · split at h
    · cases h
    · exact ⟨[], by simpa using h⟩
  next fst snd rest =>
    have hl : (snd :: rest).getLast (by simp) = place := by simpa using h
    exact ⟨fst :: (snd :: rest).dropLast, by rw [← hl, cons_append, dropLast_append_getLast]⟩

lemma handsOn_threadedName_iff (h : Threadable statement name) :
    HandsOn name (projectionsIn (threadedName statement name true)) ↔
      ∀ place clause, (split statement).clauses[place]? = some clause →
      clause.keyword = .projecting → (split statement).thread.Passes name place clause := by
  have hentries : (∀ place clause, (split statement).clauses[place]? = some clause →
      clause.keyword = .projecting → (split statement).thread.Passes name place clause) ↔
      ∀ entry ∈ placed .projecting 0 (split statement).clauses,
        (split statement).thread.Passes name entry.2 entry.1 := by
    constructor
    · intro hall entry hentry
      obtain ⟨hclause, hkeyword⟩ := mem_placed.mp hentry
      exact hall _ _ hclause hkeyword
    · exact fun hall place clause hclause hkeyword =>
        hall (clause, place) (mem_placed.mpr ⟨hclause, hkeyword⟩)
  have happend : ∀ gs gs', readGroups (gs ++ gs') = readGroups gs ++ readGroups gs' := by
    simp [readGroups]
  rw [hentries, projectionsIn_eq_readGroups, groupLexemes_threadedName h, happend, changedLexemes,
    readGroups_changedFrom]
  cases hexport : (split statement).thread.exportAt with
  | none =>
    have hneeds : needsExport statement true := by simp [needsExport, hexport]
    have hadded : readGroups [(Keyword.projecting,
        lexemes ("WITH *, ".toList ++ exportProjection name))] =
        [projectionsOf ("WITH *, ".toList ++ exportProjection name)] := rfl
    rw [if_pos hneeds, hadded, handsOn_append,
      and_iff_left (mem_items_exportClause h.isFree.toIsVariable), forall_mem_map]
    refine forall₂_congr fun entry hentry => ?_
    obtain ⟨hclause, hkeyword⟩ := mem_placed.mp hentry
    exact keeps_changes_iff h hclause hkeyword (by simp [hexport])
  | some last =>
    have hneeds : needsExport statement true = false := by simp [needsExport, hexport]
    obtain ⟨front, hplaces⟩ := eq_append_of_exportAt hexport
    rw [placesOf, placesFrom_eq] at hplaces
    obtain ⟨before, final, hentries, _, hfinal⟩ := map_eq_append_iff.mp hplaces
    obtain ⟨entry, rfl, rfl⟩ := map_eq_singleton_iff.mp hfinal
    -- the clauses before the last one stand at other places
    have hbefore : ∀ other ∈ before, (split statement).thread.exportAt ≠ some other.2 := by
      intro other hother heq
      have hrising := pairwise_placed .projecting (split statement).clauses
      rw [hentries, pairwise_append] at hrising
      have hlt := hrising.2.2 other hother entry mem_cons_self
      rw [hexport, Option.some_inj] at heq
      omega
    have hnone : readGroups [] = [] := rfl
    have hmem : ∀ other ∈ before ++ [entry], _ :=
      fun other hother => mem_placed.mp (hentries ▸ hother)
    rw [hentries]
    rw [if_neg (by simp [hneeds]), hnone, append_nil, map_append, map_singleton, handsOn_append,
      forall_mem_map, forall_mem_append, forall_mem_singleton]
    have hlast := hmem entry (by simp)
    refine and_congr (forall₂_congr fun other hother => ?_)
      (exports_changes_iff h hlast.1 hlast.2 hexport)
    have hclause := hmem other (by simp [hother])
    exact keeps_changes_iff h hclause.1 hclause.2 (hbefore other hother)

/-- Threading a variable through a statement succeeds, and the variable survives until it is handed
on. -/
def Survives (statement name : Chars) : Prop :=
  ∃ threaded, threadName statement name true = .ok threaded ∧ HandsOn name (projectionsIn threaded)

/-- A variable that is threaded through a statement survives until the last clause that projects
hands it on, exactly if the first and the last one are not cut short and every clause that projects
passes: the clauses between the first and the last one keep it by themselves, and where the text of
the first or the last one seems to have what is to be added, it is an item. -/
theorem handsOn_threadName_iff (h : Threadable statement name) :
    Survives statement name ↔ (split statement).isReadable ∧
      ∀ place clause, (split statement).clauses[place]? = some clause → clause.keyword = .projecting →
        (split statement).thread.Passes name place clause := by
  rw [Survives, threadName_eq]
  cases (split statement).isReadable with
  | true => simpa using handsOn_threadedName_iff h
  | false => simp

/-- A statement whose second clause that projects drops everything else. -/
def droppingStatement : Chars := "WITH a MATCH (n) WITH n MATCH (m) WITH m".toList

/-- A statement whose first clause ends too soon. -/
def cutStatement : Chars := "WITH DI\ufb06INCT MATCH (n) WITH n".toList

lemma Threadable.of_single (hst : SelfContained statement) (hna : IsFree name)
    (hi : ∀ cl ∈ (split statement).clauses, cl.keyword = .projecting →
      ∀ item ∈ (projectionsOf cl.text).items, item.length = 1)
      (hsp : Spaced (split statement).clauses)
    (hend : needsExport statement true = false) : Threadable statement name := by
  refine ⟨hst, hna, fun cl hcl hkw item hitem => ?_, hsp, by simp [hend]⟩
  obtain ⟨word, rfl⟩ := length_eq_one_iff.mp (hi cl hcl hkw item hitem)
  exact .single word

/-- With the first two clauses that project the variable survives; the second one is only changed if
it is the last. A variable cannot be threaded through a clause that is cut short. -/
theorem handsOn_droppingStatement :
    Threadable (droppingStatement.take 23) "BInput".toList ∧ Threadable droppingStatement "BInput".toList ∧
      Threadable cutStatement "BInput".toList ∧ Survives (droppingStatement.take 23) "BInput".toList ∧
      ¬ Survives droppingStatement "BInput".toList ∧ ¬ Survives cutStatement "BInput".toList := by
  have hfree : IsFree "BInput".toList :=
    ⟨⟨by decide, all_eq_true.mp (by decide), by decide⟩, by decide, by decide⟩
  have hshort : Threadable (droppingStatement.take 23) "BInput".toList :=
    .of_single (by decide +kernel) hfree (by decide +kernel) (by decide +kernel) (by decide +kernel)
  have hlong : Threadable droppingStatement "BInput".toList :=
    .of_single (by decide +kernel) hfree (by decide +kernel) (by decide +kernel) (by decide +kernel)
  have hcut : Threadable cutStatement "BInput".toList :=
    .of_single (by decide +kernel) hfree (by decide +kernel) (by decide +kernel) (by decide +kernel)
  refine ⟨hshort, hlong, hcut, (handsOn_threadName_iff hshort).mpr ⟨by decide +kernel, ?_⟩,
    fun hsurvives => ?_, fun hsurvives => ?_⟩
  · have hall : ∀ entry ∈ placed .projecting 0 (split (droppingStatement.take 23)).clauses,
        (split (droppingStatement.take 23)).thread.Passes "BInput".toList entry.2 entry.1 := by
          decide +kernel
    intro place clause hclause hkeyword
    exact hall (clause, place) (mem_placed.mpr ⟨hclause, hkeyword⟩)
  · have hpasses := ((handsOn_threadName_iff hlong).mp hsurvives).2 2
      ⟨.projecting, 17, "WITH n ".toList⟩ (by decide +kernel) rfl
    revert hpasses
    decide +kernel
  · have hreadable := ((handsOn_threadName_iff hcut).mp hsurvives).1
    revert hreadable
    decide +kernel

end GraphApi.Cypher
