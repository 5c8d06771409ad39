import GraphApi.Proofs.Cypher.Projections
import Mathlib.Data.List.Forall2

/-!
# Groups of lexemes that are replaced

Where a clause starts depends on what comes before it only by the last word. Main statements: groups
of lexemes can be replaced one by one (`Grouped.replace`), and those of a clause by those of the
clause with a projection of a free name added (`replaces_withProjection`).
-/

namespace GraphApi.Cypher

open List Lexeme Text

variable {prev other name proj rest : Chars} {item : List Chars} {lexeme : Lexeme}
  {list more : List Lexeme} {kw : Keyword} {gs gs' : List (Keyword × List Lexeme)}

/-! ## Words after which a keyword goes on -/

/-- Whether some keyword goes on with a clause after a word in capitals. -/
def isAwaiting (prev : Chars) : Bool := Keyword.all.any (·.continues prev)

lemma continues_eq_false (h : isAwaiting prev = false) (kw : Keyword) :
    kw.continues prev = false := by
  have hm : kw ∈ Keyword.all := by cases kw <;> decide
  simpa using any_eq_false.mp h kw hm

/-- Two words in capitals after which the same clauses start: they are equal, or no keyword goes on
after either. -/
def SameAfter (prev other : Chars) : Prop :=
  prev = other ∨ isAwaiting prev = false ∧ isAwaiting other = false

lemma SameAfter.trans {last : Chars} (h : SameAfter prev other) (hl : SameAfter other last) :
    SameAfter prev last := by
  rcases h with rfl | ⟨hpr, ho⟩
  · exact hl
  · rcases hl with rfl | ⟨_, hl⟩
    · exact .inr ⟨hpr, ho⟩
    · exact .inr ⟨hpr, hl⟩

lemma SameAfter.continues (h : SameAfter prev other) (kw : Keyword) :
    kw.continues prev = kw.continues other := by
  rcases h with rfl | ⟨hpr, ho⟩
  · rfl
  · rw [continues_eq_false hpr, continues_eq_false ho]

/-- After texts that end alike the same lexemes start clauses. -/
lemma SameAfter.starts? (h : SameAfter prev other) (lexeme : Lexeme) :
    lexeme.starts? prev = lexeme.starts? other := by
  simp only [Lexeme.starts?, Word.starts?, h.continues]

lemma SameAfter.wordAfter (h : SameAfter prev other) (lexeme : Lexeme) :
    SameAfter (lexeme.wordAfter prev) (lexeme.wordAfter other) := by
  unfold Lexeme.wordAfter
  split
  · exact .inl rfl
  · exact h

def lastWord (prev : Chars) (list : List Lexeme) : Chars :=
  list.foldl (fun prev lexeme => lexeme.wordAfter prev) prev

lemma lastWord_append (prev : Chars) (list more : List Lexeme) :
    lastWord prev (list ++ more) = lastWord (lastWord prev list) more := foldl_append

lemma SameAfter.lastWord (h : SameAfter prev other) (list : List Lexeme) :
    SameAfter (lastWord prev list) (lastWord other list) := by
  induction list generalizing prev other with
  | nil => exact h
  | cons lexeme rest ih => exact ih (h.wordAfter lexeme)

def Quiet (prev : Chars) : List Lexeme → Prop
  | [] => True
  | lexeme :: rest => lexeme.starts? prev = none ∧ Quiet (lexeme.wordAfter prev) rest

lemma Quiet.congr (h : Quiet prev list) (heq : SameAfter prev other) : Quiet other list := by
  induction list generalizing prev other with
  | nil => trivial
  | cons lexeme rest ih =>
    obtain ⟨h1, hr⟩ := h
    exact ⟨heq.starts? lexeme ▸ h1, ih hr (heq.wordAfter lexeme)⟩

lemma quiet_append : Quiet prev (list ++ more) ↔ Quiet prev list ∧
    Quiet (lastWord prev list) more := by
  induction list generalizing prev with
  | nil => exact ⟨fun hmo => ⟨trivial, hmo⟩, And.right⟩
  | cons lexeme rest ih =>
    rw [cons_append, Quiet, Quiet, ih, and_assoc]
    rfl

def Grouped (prev : Chars) : List (Keyword × List Lexeme) → Prop
  | [] => True
  | (keyword, group) :: rest =>
    (∃ first others, group = first :: others ∧ first.starts? prev = some keyword ∧
      Quiet (first.wordAfter prev) others) ∧ Grouped (lastWord prev group) rest

lemma groupLexemes_quiet (h : Quiet prev list) (more : List Lexeme) :
    groupLexemes prev (list ++ more) =
    (list ++ (groupLexemes (lastWord prev list) more).1,
      (groupLexemes (lastWord prev list) more).2) := by
  induction list generalizing prev with
  | nil => rfl
  | cons lexeme rest ih =>
    obtain ⟨h1, hr⟩ := h
    rw [cons_append, groupLexemes, h1, ih hr]
    rfl

lemma groupLexemes_grouped (h : Grouped prev gs) :
    groupLexemes prev (gs.flatMap (·.2)) = ([], gs) := by
  induction gs generalizing prev with
  | nil => rfl
  | cons fst rest ih =>
    obtain ⟨kw, group⟩ := fst
    obtain ⟨⟨lexeme, os, rfl, hst, hqu⟩, hr⟩ := h
    have hl : lastWord prev (lexeme :: os) = lastWord (lexeme.wordAfter prev) os := rfl
    rw [hl] at hr
    rw [flatMap_cons, cons_append, groupLexemes, hst, groupLexemes_quiet hqu, ih hr]
    simp

lemma grouped_groupLexemes (prev : Chars) (list : List Lexeme) :
    Quiet prev (groupLexemes prev list).1 ∧
    Grouped (lastWord prev (groupLexemes prev list).1) (groupLexemes prev list).2 := by
  induction list generalizing prev with
  | nil => exact ⟨trivial, trivial⟩
  | cons lexeme rest ih =>
    obtain ⟨hqu, hgr⟩ := ih (lexeme.wordAfter prev)
    cases hst : lexeme.starts? prev with
    | none =>
      rw [groupLexemes, hst]
      exact ⟨⟨hst, hqu⟩, hgr⟩
    | some kw =>
      rw [groupLexemes, hst]
      exact ⟨trivial, ⟨_, _, rfl, hst, hqu⟩, hgr⟩

lemma groupLexemes_flatten (prev : Chars) (list : List Lexeme) :
    (groupLexemes prev list).1 ++ (groupLexemes prev list).2.flatMap (·.2) = list := by
  induction list generalizing prev with
  | nil => rfl
  | cons lexeme rest ih =>
    have hr := ih (lexeme.wordAfter prev)
    rw [groupLexemes]
    cases lexeme.starts? prev <;> simpa using hr

lemma isWord_of_starts? (h : lexeme.starts? prev = some kw) : lexeme.isWord := by
  unfold starts? at h
  split at h
  · assumption
  · cases h

lemma Grouped.congr (h : Grouped prev gs) (heq : SameAfter prev other) : Grouped other gs := by
  cases gs with
  | nil => trivial
  | cons fst rest =>
    obtain ⟨kw, group⟩ := fst
    obtain ⟨⟨lexeme, os, rfl, hst, hqu⟩, hr⟩ := h
    have hw : lexeme.wordAfter prev = lexeme.wordAfter other := by
      simp [wordAfter, isWord_of_starts? hst]
    have hl : lastWord prev (lexeme :: os) = lastWord other (lexeme :: os) := by
      rw [lastWord, foldl_cons, hw]
      rfl
    exact ⟨⟨lexeme, os, rfl, heq.starts? lexeme ▸ hst, hw ▸ hqu⟩, hl ▸ hr⟩

lemma Grouped.append (h : Grouped prev gs)
    (h' : Grouped (lastWord prev (gs.flatMap (·.2))) gs') : Grouped prev (gs ++ gs') := by
  induction gs generalizing prev with
  | nil => exact h'
  | cons fst rest ih =>
    obtain ⟨h1, hr⟩ := h
    rw [flatMap_cons, lastWord_append] at h'
    exact ⟨h1, ih hr h'⟩

/-- The lexemes of a clause can be replaced: they start with the same word outside as many brackets,
no clause starts within the new ones unless one did within the old ones, and the same clauses can
start after them. -/
def Replaces (old new : List Lexeme) : Prop :=
  ∃ text text' depth others others',
    old = ⟨text, depth, true⟩ :: others ∧ new = ⟨text', depth, true⟩ :: others' ∧
      upperChars text = upperChars text' ∧
      (Quiet (upperChars text) others → Quiet (upperChars text) others' ∧
        SameAfter (lastWord (upperChars text) others) (lastWord (upperChars text) others'))

/-- A clause stays as it is, or its lexemes are replaced. -/
def Regroups (old new : Keyword × List Lexeme) :
    Prop := new.1 = old.1 ∧ (new.2 = old.2 ∨ Replaces old.2 new.2)

/-- Groups of lexemes can be replaced one by one. -/
theorem Grouped.replace (h : Grouped prev gs) (hgs : Forall₂ Regroups gs gs') : Grouped prev gs' ∧
    SameAfter (lastWord prev (gs.flatMap (·.2))) (lastWord prev (gs'.flatMap (·.2))) := by
  induction hgs generalizing prev with
  | nil => exact ⟨trivial, .inl rfl⟩
  | @cons old new rest rest' h1 hr ih =>
    obtain ⟨kw, group⟩ := old
    obtain ⟨keyword', group'⟩ := new
    obtain ⟨hkw, hg⟩ := h1
    obtain rfl : keyword' = kw := hkw
    obtain ⟨⟨lexeme, os, rfl, hst, hqu⟩, hgr⟩ := h
    -- after the new group the same clauses start
    have hnew : (∃ fst os, group' = fst :: os ∧ fst.starts? prev = some keyword' ∧
        Quiet (fst.wordAfter prev) os) ∧
        SameAfter (lastWord prev (lexeme :: os)) (lastWord prev group') := by
      rcases hg with heq | ⟨text, text', depth, more, more', hold, hnew, hcap, hre⟩
      · obtain rfl : group' = lexeme :: os := heq
        exact ⟨⟨lexeme, os, rfl, hst, hqu⟩, .inl rfl⟩
      · obtain rfl : group' = _ := hnew
        obtain ⟨rfl, rfl⟩ := cons.inj hold
        have hw : ∀ text, wordAfter prev ⟨text, depth, true⟩ = upperChars text := fun _ => rfl
        obtain ⟨hqu', heq⟩ := hre hqu
        rw [hcap] at hqu' heq
        refine ⟨⟨_, _, rfl, ?_, hqu'⟩, ?_⟩
        · rw [← hst]
          simp [starts?, Word.starts?, hcap]
        · rwa [lastWord, lastWord, foldl_cons, foldl_cons, hw, hw, hcap]
    obtain ⟨hsr, heq⟩ := hnew
    obtain ⟨hgr', hl⟩ := ih (hgr.congr heq)
    refine ⟨⟨hsr, hgr'⟩, ?_⟩
    rw [flatMap_cons, flatMap_cons, lastWord_append, lastWord_append]
    exact (heq.lastWord _).trans hl

/-! ## Names that start no clause -/

/-- A name that is read as a variable anywhere in a statement: it starts no clause, and no keyword
goes on after it. -/
structure IsFree (name : Chars) : Prop extends IsVariable name where
  notKeyword : Keyword.ofCapitals? (upperChars name) = none
  notAwaiting : isAwaiting (upperChars name) = false

lemma isFree_underscore (h : IsLetters name) : IsFree ('_' :: name) := by
  have hcap : upperChars ('_' :: name) = '_' :: upperChars name := by
    rfl
  have hke : ∀ kw : Keyword, kw.word.toList.head? ≠ some '_' ∧
      ∀ word ∈ kw.continuedAfter, word.toList.head? ≠ some '_' := by
    intro kw
    cases kw <;> decide
  refine ⟨isVariable_underscore h, ?_, ?_⟩
  · rw [Keyword.ofCapitals?, find?_eq_none]
    intro kw _ heq
    refine (hke kw).1 ?_
    rw [beq_iff_eq.mp heq, hcap, head?_cons]
  · rw [isAwaiting, any_eq_false]
    intro kw _ hco
    obtain ⟨word, hw, heq⟩ := any_eq_true.mp hco
    refine (hke kw).2 word hw ?_
    rw [beq_iff_eq.mp heq, hcap, head?_cons]

lemma isFree_as : IsFree ['A', 'S'] := ⟨isVariable_as, by decide, by decide⟩

lemma IsProjection.isFree (h : IsProjection name proj item) (hn : IsFree name) :
    ∀ word ∈ item, IsFree word :=
  h.forall_words hn isFree_as (isFree_underscore hn.isNameChar)

lemma starts?_word (h : Keyword.ofCapitals? (upperChars name) = none) (prev : Chars) :
    (word name).starts? prev = none := by
  simp [starts?, word, Word.starts?, h]

lemma quiet_words (h : ∀ word ∈ item, IsFree word) (prev : Chars) : Quiet prev (item.map word) := by
  induction item generalizing prev with
  | nil => trivial
  | cons word os ih =>
    refine ⟨starts?_word (h word mem_cons_self).notKeyword prev, ih (fun other ho => ?_) _⟩
    exact h other (mem_cons_of_mem _ ho)

lemma isAwaiting_words (h : ∀ word ∈ item, IsFree word) (hpr : isAwaiting prev = false) :
    isAwaiting (lastWord prev (item.map word)) = false := by
  induction item generalizing prev with
  | nil => exact hpr
  | cons word os ih =>
    exact ih (forall_mem_cons.mp h).2 (h word mem_cons_self).notAwaiting

lemma Added.quiet {pre after : List Lexeme} {afterStar : Bool} (h : Added item afterStar pre after)
    (hi : ∀ word ∈ item, IsFree word) (hpr : isAwaiting prev = false) (hqu : Quiet prev pre) :
    Quiet prev after ∧ SameAfter (lastWord prev pre) (lastWord prev after) := by
  have hws := quiet_words hi
  have hl := isAwaiting_words hi hpr
  have heq : SameAfter prev (lastWord prev (item.map word)) := .inr ⟨hpr, hl⟩
  cases h with
  | first => exact ⟨hws prev, heq⟩
  | front list =>
    refine ⟨quiet_append.mpr ⟨hws prev, rfl, hqu.congr heq⟩, ?_⟩
    rw [lastWord_append]
    exact heq.lastWord _
  | star list =>
    obtain ⟨_, hlist⟩ := hqu
    refine ⟨⟨rfl, rfl, quiet_append.mpr ⟨hws prev, hlist.congr heq⟩⟩, ?_⟩
    have hst : ∀ more c, lastWord prev (sign c :: more) = lastWord prev more := fun _ _ => rfl
    rw [hst, hst, hst, lastWord_append]
    exact heq.lastWord list

lemma isAwaiting_distinct (rest : Chars) : isAwaiting (distinctWord ++ rest) = false := by
  have hws : ∀ kw : Keyword, ∀ word ∈ kw.continuedAfter, word.toList.take 2 ≠ ['D', 'I'] := by
    intro kw
    cases kw <;> decide
  rw [isAwaiting, any_eq_false]
  intro kw _ hco
  obtain ⟨word, hw, heq⟩ := any_eq_true.mp hco
  refine hws kw word hw ?_
  rw [beq_iff_eq.mp heq]
  rfl

/-- The word that removes repeated rows starts no clause, also if it is cut off a longer word. -/
lemma quiet_distinctLexemes {trail : Chars} (htr : IsBlanks trail)
    (projs : Chars) (hqu : Quiet prev (lexemes (projs ++ trail))) :
    Quiet prev (distinctLexemes projs ++ lexemes (withoutDistinct projs ++ trail)) ∧
      SameAfter (lastWord prev (lexemes (projs ++ trail)))
        (lastWord prev (distinctLexemes projs ++ lexemes (withoutDistinct projs ++ trail))) := by
  rcases lexemes_distinct_cases htr projs with hl | ⟨hds, os, list, hos, hlo, hr⟩
  · rw [← hl]
    exact ⟨hqu, .inl rfl⟩
  · have hcap := (letters_of_seesDistinct hds).1
    have hfr := isFree_underscore hos
    have hkw : Keyword.ofCapitals? (upperChars (projs.take 8)) = none := by
      rw [hcap]
      decide
    have heq : SameAfter (upperChars (projs.take 8 ++ '_' :: os)) (upperChars ('_' :: os)) := by
      refine .inr ⟨?_, hfr.notAwaiting⟩
      rw [upperChars] at hcap ⊢
      rw [flatMap_append, hcap]
      exact isAwaiting_distinct _
    rw [hlo] at hqu ⊢
    rw [distinctLexemes, if_pos hds, hr]
    exact ⟨⟨starts?_word hkw _, starts?_word hfr.notKeyword _, hqu.2.congr heq⟩, heq.lastWord list⟩

/-- Adding a projection keeps the lexemes of a clause, or replaces them by a group that starts
alike. -/
theorem replaces_withProjection {word : Chars} (hwt : IsWith word) (hw : IsLetters word)
    (hr : EndsName rest) (hn : IsFree name) (hpr : IsProjection name proj item) :
    lexemes (withProjection (word ++ rest) proj) = lexemes (word ++ rest) ∨
      Replaces (lexemes (word ++ rest)) (lexemes (withProjection (word ++ rest) proj)) := by
  obtain ⟨trail, htr, hold, hnew⟩ := lexemes_withProjection hwt hw hr proj
  cases hfo : projects (withoutDistinct (trim rest)) proj with
  | true =>
    obtain ⟨_, _, _, _, _, _, heq⟩ := withProjection_append hwt rest proj
    rw [heq, if_pos hfo]
    exact .inl rfl
  | false =>
    refine .inr ⟨word, withLetters, 0, _, _, hold, hnew hfo, ?_, fun hqu => ?_⟩
    · exact hwt.trans (by decide)
    have haw : isAwaiting (upperChars word) = false := by
      rw [hwt]
      decide
    obtain ⟨hds, heq⟩ := quiet_distinctLexemes htr _ hqu
    obtain ⟨hle, hlist⟩ := quiet_append.mp hds
    have hl : isAwaiting (lastWord (upperChars word) (distinctLexemes (trim rest))) = false := by
      unfold distinctLexemes
      split
      next hst =>
        have hw : ∀ letters, lastWord (upperChars word) [Lexeme.word letters] =
          upperChars letters := fun _ => rfl
        rw [hw, (letters_of_seesDistinct hst).1]
        decide
      · exact haw
    obtain ⟨hadd, hsa'⟩ := (added_addToProjections hpr hn.toIsVariable htr _).quiet
      (hpr.isFree hn) hl hlist
    refine ⟨quiet_append.mpr ⟨hle, hadd⟩, ?_⟩
    rw [lastWord_append] at heq ⊢
    exact heq.trans hsa'

end GraphApi.Cypher
