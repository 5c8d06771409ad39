import GraphApi.Proofs.Cypher.Group

/-!
# Lexemes of a statement

The lexemes of a statement are its pieces without blanks and comments, each with the number of
brackets around it. Those of a statement can be told from those of its parts (`lexemes_append`), and
its clauses are groups of its lexemes (`lexemes_split`).
-/

namespace GraphApi.Cypher

open List Piece Text

variable {s rest after bs : Chars} {c quote : Char} {piece : Piece}
  {ps qs : List Piece} {depth : Nat} {before : Option Char} {prev : Chars}

/-! ## Lexemes -/

/-- A piece that is no blank and no comment: its text, the number of brackets around it, and whether
it is a word. -/
structure Lexeme where
  text : Chars
  depth : Nat
  isWord : Bool
deriving DecidableEq, Repr

def Piece.isGap (piece : Piece) : Bool :=
  piece.kind = .comment || (piece.kind = .other && piece.text.all isBlank)

def lexemesFrom (depth : Nat) (before : Option Char) : List Piece → List Lexeme
  | [] => []
  | piece :: rest =>
    let others := lexemesFrom (piece.depthAfter depth) piece.text.getLast? rest
    if piece.isGap then others else ⟨piece.text, depth, piece.kind = .name &&
      !isAccess before⟩ :: others

def lexemes (text : Chars) : List Lexeme := lexemesFrom 0 none (pieces text)

def readings (text : Chars) : List (Chars × Nat) :=
  (words text).map fun word => (word.text, word.depth)

lemma words_eq_filter_lexemes (off : Nat) :
    (wordsFrom off depth before ps).map (fun word => (word.text, word.depth)) =
    ((lexemesFrom depth before ps).filter (·.isWord)).map fun lexeme =>
    (lexeme.text, lexeme.depth) := by
  induction ps generalizing off depth before with
  | nil => rfl
  | cons piece rest ih =>
    rw [wordsFrom, lexemesFrom]
    cases hgap : piece.isGap with
    | true =>
      have hk : piece.kind ≠ .name := by
        rintro hn
        simp [isGap, hn] at hgap
      simp [hk, ih]
    | false => cases decide (piece.kind = .name) && !isAccess before <;> simp [ih]

lemma readings_eq (text : Chars) :
    readings text = ((lexemes text).filter (·.isWord)).map fun lexeme =>
      (lexeme.text, lexeme.depth) :=
  words_eq_filter_lexemes 0

lemma lexemesFrom_congr {other : Option Char} (h : isAccess before = isAccess other)
    (ps : List Piece) : lexemesFrom depth before ps = lexemesFrom depth other ps := by
  cases ps with
  | nil => rfl
  | cons piece rest => rw [lexemesFrom, lexemesFrom, h]

lemma lexemesFrom_append (depth : Nat) (before : Option Char) (ps qs : List Piece) :
    lexemesFrom depth before (ps ++ qs) =
    lexemesFrom depth before ps ++ lexemesFrom (depthOver depth ps) (lastOver before ps) qs := by
  induction ps generalizing depth before with
  | nil => rfl
  | cons piece rest ih =>
    rw [cons_append, lexemesFrom, lexemesFrom, ih]
    split <;> rfl

/-! ## Texts that are read one after the other -/

/-- The first text is read as it is by itself before the second one, and the second one outside all
brackets and not as a property key or a parameter. -/
structure Joins (first second : Chars) : Prop where
  pieces : pieces (first ++ second) = pieces first ++ pieces second
  depth : depthOver 0 (Cypher.pieces first) = 0
  before : isAccess first.getLast? = false

variable {fst snd third other : Chars}

/-- Texts that join are read one after the other. -/
theorem lexemes_append (h : Joins fst snd) : lexemes (fst ++ snd) = lexemes fst ++ lexemes snd := by
  have hl : isAccess (lastOver none (pieces fst)) = isAccess none := by
    rw [lastOver_pieces, h.before]
    rfl
  rw [lexemes, h.pieces, lexemesFrom_append, h.depth, lexemesFrom_congr hl]
  rfl

lemma Joins.swap (h : Joins fst snd)
    (hen : ∀ piece : Piece, piece.EndsBefore snd → piece.EndsBefore other) : Joins fst other := by
  refine ⟨?_, h.depth, h.before⟩
  have hps := pieces_before h.pieces fun piece hp => hen piece <| by
    simpa only [textOf_pieces] using endsBefore_of_pieces h.pieces piece hp
  rwa [textOf_pieces] at hps

lemma Joins.left (h : Joins fst (snd ++ third)) : Joins fst snd := by
  refine h.swap fun piece hp => ?_
  cases snd with
  | nil => exact .inl rfl
  | cons c rest => exact hp.congr rfl

lemma Joins.append (h1 : Joins fst (snd ++ third)) (h2 : Joins snd third) :
    Joins (fst ++ snd) third := by
  refine ⟨?_, ?_, ?_⟩
  · rw [append_assoc, h1.pieces, h2.pieces, h1.left.pieces, append_assoc]
  · rw [h1.left.pieces, depthOver, foldl_append]
    have hdp := h1.depth
    rw [depthOver] at hdp
    rw [hdp]
    exact h2.depth
  · cases hl : snd.getLast? with
    | none => simpa [getLast?_append, hl] using h1.before
    | some c =>
      have hb := h2.before
      simpa [getLast?_append, hl] using hb

lemma Joins.right (h : Joins (fst ++ snd) third) (h1 : Joins fst (snd ++ third)) :
    Joins snd third := by
  have hps := h.pieces
  rw [append_assoc, h1.pieces, h1.left.pieces, append_assoc] at hps
  have hdp := h.depth
  rw [h1.left.pieces, depthOver, foldl_append] at hdp
  have hze := h1.depth
  rw [depthOver] at hze
  rw [hze] at hdp
  refine ⟨append_cancel_left hps, hdp, ?_⟩
  cases hl : snd.getLast? with
  | none => rfl
  | some c =>
    have hb := h.before
    rwa [getLast?_append, hl, Option.some_or] at hb

lemma joins_nil (snd : Chars) : Joins [] snd := ⟨by simp [pieces], by simp [pieces, depthOver], rfl⟩

lemma pieces_word_self {word : Chars} (hne : word ≠ []) (hw : IsLetters word) :
    pieces word = [⟨.name, word⟩] := by
  have hno : EndsName [] := nofun
  simpa [pieces] using pieces_word hne hw hno

lemma joins_word {word : Chars} (hne : word ≠ []) (hw : IsLetters word) (h2 : EndsName snd) :
    Joins word snd := by
  have hps := pieces_word_self hne hw
  refine ⟨?_, ?_, ?_⟩
  · rw [pieces_word hne hw h2, hps]
    rfl
  · rw [hps]
    rfl
  · rw [getLast?_eq_some_getLast hne]
    have hl := hw _ (getLast_mem hne)
    have hdot := ne_of_isNameChar hl (by decide : isNameChar '.' = false)
    have hdo := ne_of_isNameChar hl (by decide : isNameChar '$' = false)
    simp [isAccess, hdot, hdo]

lemma joins_sign (hp : isPlain c) (hn : isNameChar c = false) (hac : isAccess (some c) = false)
    (snd : Chars) : Joins [c] snd := by
  have hps : pieces [c] = [⟨.other, [c]⟩] := by
    rw [pieces_other hp hn]
    simp [pieces]
  refine ⟨?_, ?_, hac⟩
  · rw [singleton_append, pieces_other hp hn, hps]
    rfl
  · rw [hps]
    rfl

lemma lexemes_word {word : Chars} (hne : word ≠ []) (hw : IsLetters word) :
    lexemes word = [⟨word, 0, true⟩] := by
  rw [lexemes, pieces_word_self hne hw]
  simp [lexemesFrom, isGap, isAccess]

lemma lexemes_sign (hp : isPlain c) (hn : isNameChar c = false) (hbl : isBlank c = false) :
    lexemes [c] = [⟨[c], 0, false⟩] := by
  rw [lexemes, pieces_other hp hn]
  simp [pieces, lexemesFrom, isGap, hbl]

lemma sort_of_isBlank (h : isBlank c) :
    isPlain c ∧ isNameChar c = false ∧ isAccess (some c) = false := by
  have hco : blankCodes.all fun code => isPlain (Char.ofNat code) &&
      !isNameChar (Char.ofNat code) && !isAccess (some (Char.ofNat code)) := by decide +kernel
  have hcd := all_eq_true.mp hco c.toNat (by simpa [isBlank] using h)
  simpa [and_assoc] using hcd

lemma joins_blanks (hbl : IsBlanks bs) (snd : Chars) : Joins bs snd := by
  induction bs with
  | nil => exact joins_nil snd
  | cons c rest ih =>
    have hc := hbl c mem_cons_self
    obtain ⟨hp, hn, hac⟩ := sort_of_isBlank hc
    have hr := ih (forall_mem_cons.mp hbl).2
    exact Joins.append (joins_sign hp hn hac (rest ++ snd)) hr

lemma lexemesFrom_blanks (hbl : IsBlanks bs) (depth : Nat)
    (before : Option Char) : lexemesFrom depth before (pieces bs) = [] := by
  induction bs generalizing depth before with
  | nil => simp [pieces, lexemesFrom]
  | cons c rest ih =>
    have hc := hbl c mem_cons_self
    obtain ⟨hp, hn, _⟩ := sort_of_isBlank hc
    have hgap : isGap ⟨.other, [c]⟩ := by simp [isGap, hc]
    rw [pieces_other hp hn, lexemesFrom, if_pos hgap]
    exact ih (forall_mem_cons.mp hbl).2 _ _

lemma lexemes_blanks (hbl : IsBlanks bs) : lexemes bs = [] := lexemesFrom_blanks hbl 0 none

def Lexeme.word (text : Chars) : Lexeme := ⟨text, 0, true⟩

def Lexeme.sign (c : Char) : Lexeme := ⟨[c], 0, false⟩

/-- A text is read as some lexemes before another one. -/
structure ReadsAs (text : Chars) (list : List Lexeme) (rest : Chars) :
    Prop extends Joins text rest where
  lexemes : lexemes text = list

/-- A text that reads as lexemes does so in front of the rest. -/
theorem ReadsAs.lexemes_append {list : List Lexeme} (h : ReadsAs s list rest) :
    Cypher.lexemes (s ++ rest) = list ++ Cypher.lexemes rest := by
  rw [Cypher.lexemes_append h.toJoins, h.lexemes]

lemma ReadsAs.append {list more : List Lexeme} (h1 : ReadsAs fst list (snd ++ third))
    (h2 : ReadsAs snd more third) : ReadsAs (fst ++ snd) (list ++ more) third :=
  ⟨h1.toJoins.append h2.toJoins, by
    rw [Cypher.lexemes_append h1.toJoins.left, h1.lexemes, h2.lexemes]⟩

lemma readsAs_word {word : Chars} (hne : word ≠ []) (hw : IsLetters word)
    (hr : EndsName rest) : ReadsAs word [Lexeme.word word] rest :=
  ⟨joins_word hne hw hr, lexemes_word hne hw⟩

lemma readsAs_sign (hp : isPlain c) (hn : isNameChar c = false) (hac : isAccess (some c) = false)
    (hbl : isBlank c = false) (rest : Chars) : ReadsAs [c] [Lexeme.sign c] rest :=
  ⟨joins_sign hp hn hac rest, lexemes_sign hp hn hbl⟩

lemma readsAs_blanks (hbl : IsBlanks bs) (rest : Chars) : ReadsAs bs [] rest :=
  ⟨joins_blanks hbl rest, lexemes_blanks hbl⟩

/-! ## Clauses as groups of lexemes -/

def Lexeme.starts? (prev : Chars) (lexeme : Lexeme) : Option Keyword :=
  if lexeme.isWord then Word.starts? ⟨0, lexeme.text, lexeme.depth⟩ prev else none

def Lexeme.wordAfter (prev : Chars) (lexeme : Lexeme) : Chars :=
  if lexeme.isWord then upperChars lexeme.text else prev

def groupLexemes (prev : Chars) : List Lexeme → List Lexeme × List (Keyword × List Lexeme)
  | [] => ([], [])
  | lexeme :: rest =>
    let others := groupLexemes (lexeme.wordAfter prev) rest
    match lexeme.starts? prev with
    | some keyword => ([], (keyword, lexeme :: others.1) :: others.2)
    | none => (lexeme :: others.1, others.2)

lemma groupLexemes_lexemesFrom (prev : Chars) (depth : Nat) (before : Option Char)
    (ps : List Piece) :
    groupLexemes prev (lexemesFrom depth before ps) =
      (lexemesFrom depth before (groupFrom prev depth before ps).1,
        (groupFrom prev depth before ps).2.map fun group =>
          (group.1, lexemesFrom 0 none group.2)) := by
  induction ps generalizing prev depth before with
  | nil => rfl
  | cons piece rest ih =>
    have hos := ih (piece.wordAfter before prev) (piece.depthAfter depth) piece.text.getLast?
    cases hgap : piece.isGap with
    | true =>
      -- blanks and comments are no words
      have hw : piece.word? before = none := by
        have hk : piece.kind ≠ .name := by
          rintro hn
          simp [isGap, hn] at hgap
        simp [word?, hk]
      have hst : piece.starts? depth before prev = none := by simp [starts?, hw]
      have ha : piece.wordAfter before prev = prev := by simp [wordAfter, hw]
      rw [ha] at hos
      rw [groupFrom_of_none hst, lexemesFrom, if_pos hgap, lexemesFrom, if_pos hgap, ha, hos]
    | false =>
      have hcons : ∀ more, lexemesFrom depth before (piece :: more) =
          ⟨piece.text, depth, piece.kind = .name && !isAccess before⟩ ::
            lexemesFrom (piece.depthAfter depth) piece.text.getLast? more := by
        intro more
        rw [lexemesFrom, hgap]
        rfl
      have ha : Lexeme.wordAfter prev ⟨piece.text, depth, piece.kind = .name && !isAccess before⟩ =
          piece.wordAfter before prev := by
        rw [Lexeme.wordAfter, wordAfter, word?]
        split <;> rfl
      have hst : Lexeme.starts? prev ⟨piece.text, depth, piece.kind = .name && !isAccess before⟩ =
          piece.starts? depth before prev := by
        rw [Lexeme.starts?, starts?, word?]
        split <;> rfl
      rw [hcons, groupLexemes, ha, hst, hos]
      cases hkw : piece.starts? depth before prev with
      | none =>
        rw [groupFrom_of_none hkw, hcons]
      | some kw =>
        -- a clause starts outside all brackets with a word
        obtain ⟨rfl, _, _⟩ := starts?_eq_some hkw
        have hac : isAccess before = isAccess none := by
          cases hac : isAccess before with
          | false => rfl
          | true => simp [starts?, word?, hac] at hkw
        have hg : ∀ more, lexemesFrom 0 none (piece :: more) =
            ⟨piece.text, 0, piece.kind = .name && !isAccess before⟩ ::
              lexemesFrom (piece.depthAfter 0) piece.text.getLast? more := by
          intro more
          rw [← lexemesFrom_congr hac, hcons]
        rw [groupFrom_of_some hkw, map_cons, hg]
        rfl

lemma pieces_of_mem_groups {stmt : Chars} {group : Keyword × List Piece}
    (h : group ∈ (groups stmt).2) : pieces (textOf group.2) = group.2 := by
  obtain ⟨front, back, hsp⟩ := append_of_mem h
  have hps := groupFrom_flatten [] 0 none (pieces stmt)
  change (groups stmt).1 ++ (groups stmt).2.flatMap (·.2) = pieces stmt at hps
  rw [hsp, flatMap_append, flatMap_cons, ← append_assoc] at hps
  exact pieces_textOf (pieces_textOf_right hps.symm)

/-- The lexemes of the clauses are the groups of the lexemes of the statement. -/
theorem lexemes_split (stmt : Chars) :
    (split stmt).clauses.map (fun cl => (cl.keyword, lexemes cl.text)) =
    (groupLexemes [] (lexemes stmt)).2 := by
  rw [split_eq_groups, map_clausesOf fun kw text => (kw, lexemes text), lexemes,
    groupLexemes_lexemesFrom]
  refine map_congr_left fun group hg => ?_
  rw [lexemes, pieces_of_mem_groups hg]

/-- A clause as it is split off: its keyword in some spelling, and something that does not go on
with it. -/
def Clause.IsSplit (clause : Clause) : Prop :=
  ∃ word rest, clause.text = word ++ rest ∧ word ≠ [] ∧ (∀ c ∈ word, isNameChar c) ∧
    (∀ c, rest.head? = some c → isNameChar c = false) ∧ upperChars word = clause.keyword.word.toList

lemma isSplit_of_mem {stmt : Chars} {cl : Clause} (h : cl ∈ (split stmt).clauses) : cl.IsSplit := by
  have hpa : (cl.keyword, cl.text) ∈ (groups stmt).2.map fun group =>
      (group.1, textOf group.2) := by
    rw [split_eq_groups] at h
    rw [← map_clausesOf Prod.mk (textOf (groups stmt).1).length]
    exact mem_map_of_mem h
  obtain ⟨⟨kw, group⟩, hg, heq⟩ := mem_map.mp hpa
  obtain ⟨hkw, ht⟩ := Prod.mk.inj heq
  obtain ⟨piece, os, hcons, hk, hw⟩ := exists_piece_of_mem_groupFrom hg
  have hps := pieces_of_mem_groups hg
  rw [ht, hcons] at hps
  obtain ⟨rest, hr, hne, hn, hst⟩ := exists_of_pieces_name hps hk
  exact ⟨piece.text, rest, hr, hne, hn, hst, hkw ▸ hw⟩

end GraphApi.Cypher
