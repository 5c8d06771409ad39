import GraphApi.Proofs.Cypher.Regroup

/-!
# The clauses of a statement whose clauses are changed

Clauses to which a projection of a free name is added are still read one after the other, and as
clauses. Main statement: the clauses of the changed statement are the changed clauses
(`lexemes_split_render`).
-/

namespace GraphApi.Cypher

open List Text Piece Cypher

variable {name proj rest projs : Chars} {item : List Chars} {piece : Piece}

/-! ## Texts of changed clauses -/

section Joins

variable {text next letters : Chars}

lemma Joins.split_word (h : Joins (letters ++ text) next) (hne : letters ≠ [])
    (hle : IsLetters letters) (ht : EndsName text) : EndsName (text ++ next) ∧ Joins text next := by
  have hhe : EndsName (text ++ next) := by
    cases text with
    | nil =>
      have hps := h.pieces
      rw [append_nil, pieces_word_self hne hle, singleton_append] at hps
      obtain ⟨after, ha, _, _, hst⟩ := exists_of_pieces_name hps rfl
      rwa [append_cancel_left ha]
    | cons d more => exact ht
  exact ⟨hhe, h.right (joins_word hne hle hhe)⟩

lemma Joins.drop_word (h : Joins (letters ++ text) next) (hle : IsLetters letters) :
    Joins text next := by
  by_cases hne : letters = []
  · rwa [hne, nil_append] at h
  have hta : IsLetters (text.takeWhile isNameChar) := fun c hc => all_eq_true.mp all_takeWhile c hc
  have hw : IsLetters (letters ++ text.takeWhile isNameChar) := by
    intro c hc
    exact (mem_append.mp hc).elim (hle c) (hta c)
  have hst : EndsName (text.dropWhile isNameChar) := by
    intro c hc
    have hhe := head?_dropWhile_not isNameChar text
    rw [hc] at hhe
    simpa using hhe
  rw [← takeWhile_append_dropWhile (p := isNameChar) (l := text), ← append_assoc] at h
  obtain ⟨hhe, hr⟩ := h.split_word (by simp [hne]) hw hst
  -- what is left of the word is read by itself
  have hleft : Joins (text.takeWhile isNameChar) (text.dropWhile isNameChar ++ next) := by
    by_cases hnil : text.takeWhile isNameChar = []
    · rw [hnil]
      exact joins_nil _
    · exact joins_word hnil hta hhe
  rw [← takeWhile_append_dropWhile (p := isNameChar) (l := text)]
  exact hleft.append hr

lemma Joins.drop_blanks {bs : Chars} (h : Joins (bs ++ text) next) (hbl : IsBlanks bs) :
    Joins text next :=
  h.right (joins_blanks hbl _)

lemma Joins.trimStart (h : Joins (text ++ rest) next) : Joins (trimStart text ++ rest) next := by
  obtain ⟨bs, hbl, hsp⟩ := trimStart_append text
  rw [hsp, append_assoc] at h
  exact h.drop_blanks hbl

lemma joins_addToProjections {trail : Chars} (hn : IsVariable name)
    (hpr : IsProjection name proj item) (h : Joins (projs ++ trail) next)
    (hend : ∀ bs, IsBlanks bs → projs = [] ∨ projs = '*' :: bs → EndsName (trail ++ next)) :
    Joins (addToProjections projs proj ++ trail) next := by
  have hnew : ∀ tail, EndsName (tail ++ next) → Joins tail next → Joins (proj ++ tail) next :=
      fun tail hhe hta =>
    (hpr.readsAs hn hhe).toJoins.append hta
  have hco : ∀ tail, Joins tail next → Joins (',' :: ' ' :: tail) next := fun tail hta =>
    (readsAs_comma _).toJoins.append ((readsAs_space _).toJoins.append hta)
  have has : ∀ tail, Joins tail next → Joins ('*' :: ',' :: ' ' :: tail) next := fun tail hta =>
    (readsAs_star _).toJoins.append (hco tail hta)
  unfold addToProjections
  split
  · exact hnew trail (hend [] nofun (.inl rfl)) h
  next os =>
    have hl : Joins (['*'] ++ (os ++ trail)) next := h
    have hos := (hl.right (readsAs_star _).toJoins).trimStart
    dsimp only
    split
    next hnil =>
      obtain ⟨bs, hbl, hsp⟩ := trimStart_append os
      rw [hnil, append_nil] at hsp
      rw [hnil, nil_append] at hos
      exact has _ (hnew trail (hend bs hbl (.inr (hsp ▸ rfl))) hos)
    next tail hcons =>
      rw [hcons] at hos ⊢
      rw [cons_append, cons_append, cons_append, append_assoc]
      exact has _ (hnew _ (endsName_cons (by decide) _) hos)
    · rw [cons_append, cons_append, cons_append, append_assoc]
      exact has _ (hnew _ (endsName_cons (by decide) _) ((readsAs_space _).toJoins.append hos))
  · rw [append_assoc]
    exact hnew _ (endsName_cons (by decide) _) (hco _ h)

lemma withoutDistinct_suffix (projs : Chars) : withoutDistinct projs <:+ projs := by
  unfold withoutDistinct
  split
  · exact (dropWhile_suffix _).trans (drop_suffix _ _)
  · exact suffix_rfl

lemma Joins.withoutDistinct (h : Joins (projs ++ rest) next) :
    Joins (withoutDistinct projs ++ rest) next := by
  unfold Cypher.withoutDistinct
  split
  next hds =>
    rw [← take_append_drop 8 projs, append_assoc] at h
    exact (h.drop_word (letters_of_seesDistinct hds).2.2).trimStart
  · exact h

/-- If nothing but the word that removes repeated rows is there, then what follows does not go on
with it. -/
lemma Joins.head_of_withoutDistinct (h : Joins projs next) (hne : projs ≠ [])
    (hso : Text.EndsSolid projs) (hnil : Cypher.withoutDistinct projs = []) : EndsName next := by
  unfold Cypher.withoutDistinct at hnil
  split at hnil
  next hds =>
    obtain ⟨_, hle, hns⟩ := letters_of_seesDistinct hds
    obtain ⟨bs, hbl, hsp⟩ := trimStart_append (projs.drop 8)
    rw [hnil, append_nil] at hsp
    have hno : projs.drop 8 = [] := by
      rw [← take_append_drop 8 projs] at hso
      exact hso.eq_nil (hsp ▸ hbl)
    rw [← take_append_drop 8 projs, hno] at h
    exact (h.split_word hle hns nofun).1
  · exact absurd hnil hne

lemma joins_withProjection {word : Chars} (hwt : IsWith word) (hw : IsLetters word)
    (hn : IsVariable name) (hpr : IsProjection name proj item)
    (hst : (word ++ rest).getLast? ≠ some '*') (h : Joins (word ++ rest) next) :
    Joins (withProjection (word ++ rest) proj) next := by
  obtain ⟨bs, trail, hbl, htr, hsp, hso, hadd⟩ := withProjection_append hwt rest proj
  rw [hadd]
  split
  · exact h
  have hl : Joins (trim rest ++ trail) next := by
    have hr : Joins (bs ++ (trim rest ++ trail)) next := hsp ▸ h.drop_word hw
    exact hr.drop_blanks hbl
  have hend : ∀ bs, IsBlanks bs →
      withoutDistinct (trim rest) = [] ∨ withoutDistinct (trim rest) = '*' :: bs →
      EndsName (trail ++ next) := by
    intro after ha hca
    cases htl : trail with
    | cons d more =>
      have hd : isBlank d := htr d (by simp [htl])
      exact endsName_cons (sort_of_isBlank hd).2.1 _
    | nil =>
      rw [htl, append_nil] at hsp hl
      have hen := hso htl
      rw [hsp] at hen
      rcases hca with hnil | hcons
      · by_cases hem : trim rest = []
        · -- the clause is nothing but its word
          rw [hem, append_nil] at hsp hen
          rw [← nil_append bs] at hen
          rw [hsp, hen.eq_nil hbl] at h
          exact (h.split_word hwt.ne_nil hw nofun).1
        · exact hl.head_of_withoutDistinct hem (endsSolid_trimEnd _) hnil
      · -- nothing comes after the star, so the clause ends with it
        obtain ⟨front, hfr⟩ := withoutDistinct_suffix (trim rest)
        rw [hcons] at hfr
        have hbc : bs ++ trim rest = (bs ++ front ++ ['*']) ++ after := by
          rw [← hfr]
          simp
        rw [hbc] at hsp hen
        rw [hsp, hen.eq_nil ha] at hst
        simp at hst
  exact (readsAs_withStart _).toJoins.append ((readsAs_distinctPart _ _).toJoins.append
    (joins_addToProjections hn hpr hl.withoutDistinct hend))

end Joins

/-! ## Clauses one after the other -/

def JoinsAll : List Chars → Prop
  | [] => True
  | [_] => True
  | first :: second :: rest => Joins first (second :: rest).flatten ∧ JoinsAll (second :: rest)

/-- Texts that join are read one after the other. -/
lemma JoinsAll.lexemes {texts : List Chars} (h : JoinsAll texts) :
    lexemes texts.flatten = texts.flatMap lexemes := by
  induction texts with
  | nil => exact lexemes_blanks nofun
  | cons fst rest ih =>
    cases rest with
    | nil => simp
    | cons snd os =>
      rw [flatten_cons, lexemes_append h.1, ih h.2]
      rfl

/-- After each group but the last one no bracket is open, and a name would be a word. -/
def Linked (pss : List (List Piece)) : Prop :=
  pss.IsChain fun first _ => depthOver 0 first = 0 ∧ isAccess (lastOver none first) = false

lemma linked_groupFrom (prev : Chars) (depth : Nat) (pre : Option Char) (ps : List Piece) :
    ((groupFrom prev depth pre ps).2 ≠ [] → depthOver depth (groupFrom prev depth pre ps).1 = 0 ∧
        isAccess (lastOver pre (groupFrom prev depth pre ps).1) = false) ∧
      Linked ((groupFrom prev depth pre ps).2.map (·.2)) := by
  induction ps generalizing prev depth pre with
  | nil => exact ⟨fun hne => absurd rfl hne, .nil⟩
  | cons piece rest ih =>
    obtain ⟨hfr, hli⟩ := ih (piece.wordAfter pre prev) (piece.depthAfter depth) piece.text.getLast?
    cases hst : piece.starts? depth pre prev with
    | none =>
      rw [groupFrom_of_none hst]
      exact ⟨hfr, hli⟩
    | some kw =>
      obtain ⟨rfl, _, _⟩ := starts?_eq_some hst
      rw [groupFrom_of_some hst]
      refine ⟨fun _ => ⟨rfl, ?_⟩, ?_⟩
      · cases hac : isAccess pre with
        | false => exact hac
        | true => simp [starts?, word?, hac] at hst
      · generalize groupFrom (piece.wordAfter pre prev) (piece.depthAfter 0)
          piece.text.getLast? rest = groups at hfr hli ⊢
        obtain ⟨front, gs⟩ := groups
        cases gs with
        | nil => exact .singleton _
        | cons snd os => exact .cons_cons (hfr (by simp)) hli

lemma joinsAll_of_linked {s : Chars} {pss : List (List Piece)} (hps : pieces s = pss.flatten)
    (h : Linked pss) : JoinsAll (pss.map textOf) := by
  induction pss generalizing s with
  | nil => trivial
  | cons fst rest ih =>
    cases rest with
    | nil => trivial
    | cons snd os =>
      obtain ⟨⟨hdp, hb⟩, hli⟩ := isChain_cons_cons.mp h
      rw [flatten_cons] at hps
      have h1 := pieces_textOf hps
      have hr := pieces_textOf_right hps
      have ht : ((snd :: os).map textOf).flatten = textOf (snd :: os).flatten :=
        (textOf_flatten _).symm
      refine ⟨⟨?_, ?_, ?_⟩, ih hr hli⟩
      · rw [← map_cons, ht, h1, hr, ← textOf_append, ← hps, textOf_pieces]
      · rwa [h1]
      · rwa [← lastOver_pieces, h1]

lemma joinsAll_split (stmt : Chars) :
    JoinsAll ((split stmt).preamble :: (split stmt).clauses.map (·.text)) := by
  obtain ⟨hfr, hli⟩ := linked_groupFrom [] 0 none (pieces stmt)
  have hps : pieces stmt = ((groups stmt).1 :: (groups stmt).2.map (·.2)).flatten := by
    exact (groupFrom_flatten _ _ _ _).symm
  have hall : Linked ((groups stmt).1 :: (groups stmt).2.map (·.2)) := by
    change Linked ((groups stmt).2.map (·.2)) at hli
    cases hgr : (groups stmt).2 with
    | nil => exact .singleton _
    | cons fst rest =>
      rw [hgr] at hli
      exact .cons_cons (hfr (by change (groups stmt).2 ≠ []; simp [hgr])) hli
  have hjo := joinsAll_of_linked hps hall
  rw [split_eq_groups, map_clausesOf fun _ text => text]
  rwa [map_cons, map_map] at hjo

/-! ## Changed clauses -/

section Changed

variable {repl : Nat → Option Chars} {place : Nat} {cl : Clause} {clauses : List Clause}
  {stmt : Chars}

def changedFrom (replacement : Nat → Option Chars) (place : Nat) :
    List Clause → List (Keyword × Chars)
  | [] => []
  | clause :: rest =>
    (clause.keyword, (replacement place).getD clause.text) :: changedFrom replacement
      (place + 1) rest

lemma renderFrom_eq_flatten (repl : Nat → Option Chars) (place : Nat) (clauses : List Clause) :
    renderFrom repl place clauses = ((changedFrom repl place clauses).map (·.2)).flatten := by
  induction clauses generalizing place with
  | nil => rfl
  | cons cl rest ih => rw [renderFrom, changedFrom, ih, map_cons, flatten_cons]

abbrev AddsProjections (name : Chars) :=
  Adds fun projection => ∃ item, IsProjection name projection item

/-- No clause that projects ends in a star right before another clause. -/
def Spaced (clauses : List Clause) : Prop :=
  clauses.IsChain fun first _ => first.keyword = .projecting → first.text.getLast? ≠ some '*'

instance : DecidablePred Spaced := fun _ => inferInstanceAs (Decidable (List.IsChain ..))

def StartsName (text : Chars) : Prop := ∃ c, text.head? = some c ∧ isNameChar c

lemma startsName_append {word : Chars} (hne : word ≠ []) (hw : IsLetters word)
    (rest : Chars) : StartsName (word ++ rest) := by
  obtain ⟨c, os, rfl⟩ := exists_cons_of_ne_nil hne
  exact ⟨c, rfl, hw c mem_cons_self⟩

lemma StartsName.append {text : Chars} (h : StartsName text) (rest : Chars) :
    StartsName (text ++ rest) := by
  obtain ⟨c, hc, hn⟩ := h
  exact ⟨c, by rw [head?_append, hc]; rfl, hn⟩

lemma StartsName.endsBefore {fst snd : Chars} (h1 : StartsName fst) (h2 : StartsName snd)
    (h : piece.EndsBefore fst) : piece.EndsBefore snd := by
  obtain ⟨c, hc, hnc⟩ := h1
  obtain ⟨d, hd, hnd⟩ := h2
  obtain ⟨more, rfl⟩ := head?_eq_some_iff.mp hc
  obtain ⟨other, rfl⟩ := head?_eq_some_iff.mp hd
  exact h.name hnc hnd other

/-- The text that takes the place of a clause: where it starts, how it is grouped, and that it is
read by itself. -/
structure TakesPlace (clause : Clause) (text : Chars) : Prop where
  startsName : StartsName text
  regroups : Regroups (clause.keyword, lexemes clause.text) (clause.keyword, lexemes text)
  joins : ∀ next, (clause.keyword = .projecting → clause.text.getLast? ≠ some '*') →
    Joins clause.text next → Joins text next

lemma takesPlace_changed (hn : IsFree name) (had : AddsProjections name repl place (cl :: clauses))
    (hsp : cl.IsSplit) : TakesPlace cl ((repl place).getD cl.text) := by
  obtain ⟨word, rest, ht, hne, hw, hr, hcap⟩ := hsp
  rcases had 0 cl rfl with hno | ⟨hkw, proj, ⟨item, hpr⟩, hso⟩
  · rw [Nat.add_zero] at hno
    rw [hno, Option.getD_none]
    exact ⟨ht ▸ startsName_append hne hw rest, ⟨rfl, .inl rfl⟩, fun _ _ hjo => hjo⟩
  · rw [Nat.add_zero] at hso
    rw [hso, Option.getD_some]
    have hwt : IsWith word := by
      rwa [hkw] at hcap
    refine ⟨?_, ⟨rfl, ?_⟩, ?_⟩
    · obtain ⟨_, _, _, _, _, _, hadd⟩ := withProjection_append hwt rest proj
      rw [ht, hadd]
      split
      · exact startsName_append hne hw rest
      · exact ⟨'W', rfl, by decide⟩
    · rw [ht]
      exact replaces_withProjection hwt hw hr hn hpr
    · intro next hst hjo
      rw [ht] at hst hjo ⊢
      exact joins_withProjection hwt hw hn.toIsVariable hpr (hst hkw) hjo

lemma regroups_changedFrom (hn : IsFree name) (had : AddsProjections name repl place clauses)
    (hsp : ∀ cl ∈ clauses, cl.IsSplit) :
    Forall₂ Regroups (clauses.map fun cl => (cl.keyword, lexemes cl.text))
      ((changedFrom repl place clauses).map fun e => (e.1, lexemes e.2)) := by
  induction clauses generalizing place with
  | nil => exact .nil
  | cons cl rest ih =>
    have h1 := takesPlace_changed hn had (hsp cl mem_cons_self)
    exact .cons h1.regroups (ih had.tail (forall_mem_cons.mp hsp).2)

lemma joinsAll_changedFrom (hn : IsFree name) (had : AddsProjections name repl place clauses)
    (hsp : ∀ cl ∈ clauses, cl.IsSplit) (hsc : Spaced clauses) {fst : Chars}
    (hjo : JoinsAll (fst :: clauses.map (·.text))) :
    JoinsAll (fst :: (changedFrom repl place clauses).map (·.2)) := by
  induction clauses generalizing place fst with
  | nil => trivial
  | cons cl rest ih =>
    obtain ⟨h1, hr⟩ := hjo
    have hcl := takesPlace_changed hn had (hsp cl mem_cons_self)
    obtain ⟨word, os, ht, hne, hw, _, _⟩ := hsp cl mem_cons_self
    have hold : StartsName cl.text := ht ▸ startsName_append hne hw os
    refine ⟨h1.swap fun _ => (hold.append _).endsBefore (hcl.startsName.append _), ?_⟩
    refine ih had.tail (forall_mem_cons.mp hsp).2 ?_ ?_
    · exact hsc.of_cons
    · cases rest with
      | nil => trivial
      | cons snd more => exact ⟨hcl.joins _ (isChain_cons_cons.mp hsc).1 hr.1, hr.2⟩

lemma groupLexemes_split (stmt : Chars) :
    groupLexemes [] (lexemes stmt) = (lexemes (split stmt).preamble,
    (split stmt).clauses.map fun cl => (cl.keyword, lexemes cl.text)) := by
  refine Prod.ext ?_ (lexemes_split stmt).symm
  have hps : pieces stmt = (groups stmt).1 ++ (groups stmt).2.flatMap (·.2) :=
    (groupFrom_flatten _ _ _ _).symm
  rw [lexemes, groupLexemes_lexemesFrom, split_eq_groups, lexemes, pieces_textOf hps]
  rfl

def Statement.changedLexemes (stmt : Statement) (replacement : Nat → Option Chars) :
    List (Keyword × List Lexeme) :=
  (changedFrom replacement 0 stmt.clauses).map fun entry => (entry.1, lexemes entry.2)

lemma lexemes_render (hn : IsFree name) (had : AddsProjections name repl 0 (split stmt).clauses)
    (hsc : Spaced (split stmt).clauses) : lexemes ((split stmt).render repl) =
        lexemes (split stmt).preamble ++ ((split stmt).changedLexemes repl).flatMap (·.2) ∧
      Quiet [] (lexemes (split stmt).preamble) ∧
      Grouped (lastWord [] (lexemes (split stmt).preamble)) ((split stmt).changedLexemes repl) ∧
      SameAfter (lastWord [] (lexemes stmt))
      (lastWord [] (lexemes ((split stmt).render repl))) := by
  have hsp : ∀ cl ∈ (split stmt).clauses, cl.IsSplit := fun _ => isSplit_of_mem
  have hjo := (joinsAll_changedFrom hn had hsp hsc (joinsAll_split stmt)).lexemes
  have hre : lexemes ((split stmt).render repl) =
      lexemes (split stmt).preamble ++ ((split stmt).changedLexemes repl).flatMap (·.2) := by
    rw [Statement.render, renderFrom_eq_flatten, ← flatten_cons, hjo,
      Statement.changedLexemes, flatMap_cons, flatMap_map, flatMap_map]
  have hold := groupLexemes_flatten [] (lexemes stmt)
  obtain ⟨hqu, hgr⟩ := grouped_groupLexemes [] (lexemes stmt)
  rw [groupLexemes_split] at hqu hgr hold
  obtain ⟨hgr', heq⟩ := hgr.replace (regroups_changedFrom hn had hsp)
  refine ⟨hre, hqu, hgr', ?_⟩
  rwa [hre, ← hold, lastWord_append, lastWord_append]

/-- The clauses of the changed statement are the changed clauses. -/
theorem lexemes_split_render (hn : IsFree name)
    (had : AddsProjections name repl 0 (split stmt).clauses) (hsp : Spaced (split stmt).clauses) :
    (split ((split stmt).render repl)).clauses.map (fun cl => (cl.keyword, lexemes cl.text)) =
      (split stmt).changedLexemes repl := by
  obtain ⟨hre, hqu, hgr, _⟩ := lexemes_render hn had hsp
  rw [lexemes_split, hre, groupLexemes_quiet hqu, groupLexemes_grouped hgr]

end Changed

/-! ## A clause on a new line -/

section Lines

variable {s bs : Chars}

lemma endsBefore_blanks (hco : piece.isComplete) (hbl : IsBlanks bs) : piece.EndsBefore bs := by
  refine .inr ⟨hco, fun c hc => ?_⟩
  have hbn := hbl c (mem_of_head? hc)
  obtain ⟨hp, hn, _⟩ := sort_of_isBlank hbn
  have hsi : c ≠ '/' ∧ c ≠ '*' := by
    refine ⟨?_, (isPlain_of_isBlank hbn).2.1⟩
    rintro rfl
    revert hp
    decide
  cases hk : piece.kind <;> simp [goesOn, hk, hn, hsi]

lemma splitLine_snd_append {w : Chars} (h : '\n' ∉ w) (more : Chars) :
    (splitLine (w ++ more)).2 = (splitLine more).2 := by
  induction w with
  | nil => rfl
  | cons c rest ih =>
    obtain ⟨hc, hr⟩ := not_or.mp (mt mem_cons.mpr h)
    simp [splitLine, Ne.symm hc, ih hr]

lemma exists_line_of_not_isComplete (hps : pieces piece.text = [piece])
    (hcl : piece.isClosed) (hon : piece.isComplete ≠ true) :
    ∃ w, '\n' ∉ w ∧ piece = ⟨.comment, '/' :: '/' :: w⟩ := by
  cases ht : piece.text with
  | nil => simp [ht, pieces] at hps
  | cons c rest =>
    rw [ht, pieces_cons] at hps
    obtain ⟨rfl, hnil⟩ := cons.inj hps
    rcases char_cases c with hq | rfl | hop | hclo | hp
    · rw [next_quoted hq] at hcl hon
      exact absurd hcl hon
    · rcases slash_cases rest with ⟨s, rfl⟩ | ⟨s, rfl⟩ | hne
      · rw [next_line] at hon ⊢
        exact ⟨_, by simpa [isComplete] using hon, rfl⟩
      · exact absurd hcl hon
      · rw [next_slash hne] at hon
        exact absurd rfl hon
    · rw [next_opening hop] at hon
      exact absurd rfl hon
    · rw [next_closing hclo] at hon
      exact absurd rfl hon
    · rw [next_plain hp] at hon
      split at hon <;> exact absurd rfl hon

lemma lexemes_append_blanks (hcl : ∀ piece ∈ pieces s, piece.isClosed)
    (hbl : IsBlanks bs) : lexemes (s ++ bs) = lexemes s := by
  by_cases hco : ∀ piece, (pieces s).getLast? = some piece → piece.isComplete
  · have hps : pieces (s ++ bs) = pieces s ++ pieces bs :=
      pieces_append_of_endsBefore fun piece hp => endsBefore_blanks (hco piece hp) hbl
    rw [lexemes, hps, lexemesFrom_append, lexemesFrom_blanks hbl, append_nil]
    rfl
  · -- the comment at the end goes on with the blanks
    simp only [not_forall] at hco
    obtain ⟨piece, hp, hop⟩ := hco
    obtain ⟨front, hfr⟩ := getLast?_eq_some_iff.mp hp
    have hal := pieces_textOf_right hfr
    rw [textOf_cons, textOf_nil, append_nil] at hal
    obtain ⟨w, hw, rfl⟩ := exists_line_of_not_isComplete hal (hcl piece (mem_of_getLast? hp)) hop
    have hs : s = textOf front ++ '/' :: '/' :: w := by
      rw [← textOf_pieces s, hfr, textOf_append]
      simp
    have hen : ∀ piece, front.getLast? = some piece → piece.EndsBefore ('/' :: '/' :: (w ++ bs)) :=
      fun piece hp => (endsBefore_of_pieces hfr piece hp).congr rfl
    have hps := pieces_before hfr hen
    have hr : IsBlanks (splitLine (w ++ bs)).2 := by
      intro c hc
      rw [splitLine_snd_append hw] at hc
      rw [← splitLine_append bs] at hbl
      exact hbl c (mem_append_right _ hc)
    have hcm : ∀ text, isGap ⟨.comment, text⟩ := fun _ => rfl
    rw [lexemes, lexemes, hfr, hs, append_assoc, cons_append, cons_append, hps,
      pieces_cons, next_line,
      lexemesFrom_append, lexemesFrom_append, lexemesFrom, lexemesFrom, if_pos (hcm _),
      if_pos (hcm _), lexemesFrom_blanks hr]
    rfl

lemma lexemes_append_line (h : SelfContained s) (rest : Chars) :
    lexemes (s ++ '\n' :: rest) = lexemes s ++ lexemes rest := by
  have hl := h.newline
  have hjo : Joins (s ++ ['\n']) rest := by
    exact ⟨pieces_append hl.1 (by simp) rest, depthOver_add hl.2 0, by simp [isAccess]⟩
  rw [← lexemes_append_blanks h.1 (all_eq_true.mp (by decide) : ∀ d ∈ ['\n'], isBlank d),
    ← lexemes_append hjo]
  simp

end Lines

end GraphApi.Cypher
