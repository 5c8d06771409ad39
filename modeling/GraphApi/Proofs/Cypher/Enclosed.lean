import Mathlib.Data.List.Forall2
import GraphApi.Proofs.Cypher.Group

/-!
# What the clauses of a statement do not depend on

The content of a quoted text or a comment makes no difference for the words and clauses around it
(`enclosed_makes_no_difference`). What stands in brackets makes one only by its last word
(`bracketed_makes_no_difference_iff`).
-/

namespace GraphApi.Cypher

open List Piece Text Word

variable {a b m m' inner rest other prev : Chars} {ps : List Piece} {pre : Option Char}
  {depth off : Nat} {ws ws' : List Word} {moved : Nat → Nat → Prop}

/-! ## Words and clauses that differ in where they stand -/

/-- Where an offset goes if a slice of the text is exchanged for one of another length. -/
def Moved (place length length' offset offset' : Nat) : Prop :=
  offset < place ∧ offset' = offset ∨ place + length ≤ offset ∧ offset' + length = offset + length'

def Word.Matches (moved : Nat → Nat → Prop) (word word' : Word) : Prop :=
  word'.text = word.text ∧ word'.depth = word.depth ∧ moved word.offset word'.offset

def Clause.Matches (moved : Nat → Nat → Prop) (clause clause' : Clause) : Prop :=
  clause'.keyword = clause.keyword ∧ moved clause.start clause'.start

/-- The last word in capitals, after a text with a last word before it. -/
def capitalsAfter (prev : Chars) (ws : List Word) : Chars :=
  (ws.getLast?.map fun word => upperChars word.text).getD prev

lemma startsFrom_append (prev : Chars) (ws later : List Word) :
    startsFrom prev (ws ++ later) = startsFrom prev ws ++
      startsFrom (capitalsAfter prev ws) later := by
  induction ws generalizing prev with
  | nil => rfl
  | cons word rest ih =>
    have ha : capitalsAfter prev (word :: rest) = capitalsAfter (upperChars word.text) rest := by
      cases hl : rest.getLast? <;> simp [capitalsAfter, getLast?_cons, hl]
    rw [cons_append, startsFrom, startsFrom, ih, ha]
    split <;> rfl

lemma startsFrom_eq_nil (h : ∀ word ∈ ws, 0 < word.depth) : startsFrom prev ws = [] := by
  induction ws generalizing prev with
  | nil => rfl
  | cons word rest ih =>
    obtain ⟨hw, hr⟩ := forall_mem_cons.mp h
    simp [startsFrom, Word.starts?, Nat.ne_of_gt hw, ih hr]

lemma Word.starts?_eq_iff (word : Word) (prev other : Chars) :
    word.starts? prev = word.starts? other ↔ (word.depth = 0 →
    ∀ kw, Keyword.ofCapitals? (upperChars word.text) = some kw →
      kw.continues prev = kw.continues other) := by
  unfold starts?
  by_cases hdp : word.depth = 0
  · cases Keyword.ofCapitals? (upperChars word.text) with
    | none => simp
    | some kw =>
      cases h1 : kw.continues prev <;> cases h2 : kw.continues other <;>
        simp [hdp, Option.filter, h1, h2]
  · simp [hdp]

lemma forall₂_startsFrom_iff (h : Forall₂ (Word.Matches moved) ws ws') :
    Forall₂ (fun start start' => start'.2 = start.2 ∧ moved start.1 start'.1) (startsFrom prev ws)
        (startsFrom other ws') ↔ ∀ word, ws.head? = some word →
        word.starts? prev = word.starts? other := by
  induction h generalizing prev other with
  | nil => simp [startsFrom]
  | @cons word word' rest rest' hw hr ih =>
    obtain ⟨ht, hdp, hof⟩ := hw
    have hla := (@ih (upperChars word.text) (upperChars word.text)).mpr fun _ _ => rfl
    have hst : word'.starts? other = word.starts? other := by simp [Word.starts?, ht, hdp]
    -- if the word starts a clause in one of the texts only, there is one more clause in it
    have hlen := hla.length_eq
    rw [startsFrom, startsFrom, ht, hst]
    cases h1 : word.starts? prev with
    | none =>
      cases h2 : word.starts? other with
      | none => simp [h1, h2, hla]
      | some kw =>
        refine iff_of_false (fun h => ?_) (by simp [h1, h2])
        have := hlen.symm.trans h.length_eq
        simp at this
    | some kw =>
      cases h2 : word.starts? other with
      | none =>
        refine iff_of_false (fun h => ?_) (by simp [h1, h2])
        have := h.length_eq.trans hlen.symm
        simp at this
      | some keyword' =>
        have hsy : keyword' = kw ↔ kw = keyword' := eq_comm
        simp [h1, h2, hla, hof, hsy]

lemma forall₂_clauses_iff {s s' : Chars} :
    Forall₂ (Clause.Matches moved) (split s).clauses (split s').clauses ↔
    Forall₂ (fun start start' => start'.2 = start.2 ∧ moved start.1 start'.1) (starts s)
    (starts s') := by
  rw [starts_eq_map, starts_eq_map, forall₂_map_left_iff, forall₂_map_right_iff]
  rfl

/-! ## Words of parts -/

lemma wordsFrom_eq_map (off start depth : Nat) (pre : Option Char) (ps : List Piece) :
    wordsFrom (off + start) depth pre ps =
      (wordsFrom start depth pre ps).map fun word => { word with offset := off + word.offset } := by
  induction ps generalizing start depth pre with
  | nil => rfl
  | cons piece rest ih => cases hw : piece.word? pre <;>
      simp [wordsFrom_cons, hw, Nat.add_assoc, ih]

lemma wordsFrom_congr {before' : Option Char} (h : isAccess pre = isAccess before') :
    wordsFrom off depth pre ps = wordsFrom off depth before' ps := by
  cases ps with
  | nil => rfl
  | cons piece rest => rw [wordsFrom, wordsFrom, h]

lemma lt_of_mem_wordsFrom {word : Word} (hne : ∀ piece ∈ ps, piece.text ≠ [])
    (h : word ∈ wordsFrom off depth pre ps) : word.offset < off + (textOf ps).length := by
  induction ps generalizing off depth pre with
  | nil => cases h
  | cons piece rest ih =>
    obtain ⟨hp, hr⟩ := forall_mem_cons.mp hne
    have hpos := length_pos_iff.mpr hp
    rw [wordsFrom_cons, mem_append] at h
    rw [textOf_cons, length_append]
    rcases h with h1 | hla
    · obtain ⟨text, -, rfl⟩ : ∃ text, piece.word? pre = some text ∧ ⟨off, text, depth⟩ = word := by
        simpa using h1
      show off < _
      omega
    · have := ih hr hla
      omega

lemma forall₂_words_before (length length' : Nat) {place : Nat} {s : Chars} (h : s.length ≤ place) :
    Forall₂ (Matches (Moved place length length')) (words s) (words s) := by
  refine forall₂_same.mpr fun word hw => ⟨rfl, rfl, .inl ⟨?_, rfl⟩⟩
  have := lt_of_mem_wordsFrom (fun piece => text_ne_nil_of_mem_pieces) hw
  rw [textOf_pieces, Nat.zero_add] at this
  omega

lemma forall₂_words_after (place length length' more depth : Nat) (pre : Option Char)
    (ps : List Piece) :
    Forall₂ (Matches (Moved place length length')) (wordsFrom (place + length + more) depth pre ps)
      (wordsFrom (place + length' + more) depth pre ps) := by
  rw [← Nat.add_zero (place + length + more), wordsFrom_eq_map,
    ← Nat.add_zero (place + length' + more),
    wordsFrom_eq_map, forall₂_map_left_iff, forall₂_map_right_iff]
  refine forall₂_same.mpr fun word _ => ⟨rfl, rfl, .inr ⟨?_, ?_⟩⟩ <;> dsimp only <;> omega

/-! ## Quoted texts and comments -/

/-- What can stand around a text that is not read: quotation marks, the marks of a comment, or those
of a comment up to the end of a line. -/
inductive Enclosure where
  | quoted (quote : Char) | block | line

def Enclosure.around : Enclosure → Chars → Chars
  | .quoted quote, inner => quote :: (inner ++ [quote])
  | .block, inner => '/' :: '*' :: (inner ++ ['*', '/'])
  | .line, inner => '/' :: '/' :: (inner ++ ['\n'])

/-- A text does not end what stands around it. -/
def Enclosure.Admits : Enclosure → Chars → Prop
  | .quoted quote, inner => isQuote quote ∧ quote ∉ inner ∧ (quote ≠ '\x60' → '\\' ∉ inner)
  | .block, inner => ¬ ['*', '/'] <:+: inner
  | .line, inner => '\n' ∉ inner

def Enclosure.kind : Enclosure → PieceKind
  | .quoted _ => .quoted
  | _ => .comment

lemma splitQuoted_inner {quote : Char} (hq : quote ∉ inner) (hes : quote ≠ '\x60' → '\\' ∉ inner)
    (hne : quote ≠ '\\') (rest : Chars) :
    splitQuoted quote (inner ++ quote :: rest) = (inner ++ [quote], rest) := by
  induction inner with
  | nil => cases rest <;> simp [splitQuoted, hne]
  | cons c os ih =>
    obtain ⟨hc, hos⟩ : c ≠ quote ∧ quote ∉ os := by simpa [eq_comm] using hq
    have hc' : ¬ (c = '\\' ∧ quote ≠ '\x60') := fun h => hes h.2 (by simp [h.1])
    have hr := ih hos fun h => fun hm => hes h (mem_cons_of_mem _ hm)
    obtain ⟨d, tail, hta⟩ := exists_cons_of_ne_nil (by simp : os ++ quote :: rest ≠ [])
    rw [cons_append, hta, splitQuoted, if_neg hc', if_neg hc, ← hta, hr]
    rfl

lemma splitLine_inner (h : '\n' ∉ inner) (rest : Chars) :
    splitLine (inner ++ '\n' :: rest) = (inner ++ ['\n'], rest) := by
  induction inner with
  | nil => simp [splitLine]
  | cons c os ih =>
    obtain ⟨hc, hos⟩ : c ≠ '\n' ∧ '\n' ∉ os := by simpa [eq_comm] using h
    simp [splitLine, hc, ih hos]

lemma splitBlock_inner (h : ¬ ['*', '/'] <:+: inner) (rest : Chars) :
    splitBlock (inner ++ '*' :: '/' :: rest) = (inner ++ ['*', '/'], rest) := by
  induction inner with
  | nil => simp [splitBlock]
  | cons c os ih =>
    have hend : ∀ tail, c = '*' → os ++ '*' :: '/' :: rest = '/' :: tail → False := by
      rintro tail rfl hta
      cases os with
      | nil => simp at hta
      | cons d more =>
        obtain rfl : d = '/' := (cons.inj hta).1
        exact h ⟨[], more, rfl⟩
    rw [cons_append, splitBlock.eq_3 c _ hend, ih fun hin => h (infix_cons hin)]
    rfl

lemma pieces_around {enc : Enclosure} (h : enc.Admits inner) (rest : Chars) :
    pieces (enc.around inner ++ rest) = ⟨enc.kind, enc.around inner⟩ :: pieces rest := by
  cases enc with
  | quoted quote =>
    obtain ⟨hq, hin, hes⟩ := h
    have hsp := splitQuoted_inner hin hes (ne_backslash_of_isQuote hq) rest
    simp [Enclosure.around, Enclosure.kind, pieces_cons, next_quoted hq, hsp]
  | block => simp [Enclosure.around, Enclosure.kind, pieces_cons, next_block, splitBlock_inner h]
  | line => simp [Enclosure.around, Enclosure.kind, pieces_cons, next_line, splitLine_inner h]

/-- One of the pieces of a text starts after its first part. -/
def Reaches (a rest : Chars) : Prop := ∃ front back, pieces (a ++ rest) = front ++ back ∧
    textOf front = a

/-- What follows can be replaced by a text with the same first character. -/
lemma Reaches.pieces (h : Reaches a rest) (hhe : other.head? = rest.head?) :
    pieces (a ++ other) = pieces a ++ pieces other := by
  obtain ⟨front, back, hps, rfl⟩ := h
  have hbc : textOf back = rest := by
    have ht := congrArg textOf hps
    rw [textOf_pieces, textOf_append] at ht
    exact (append_cancel_left ht).symm
  rw [pieces_textOf hps]
  refine pieces_before hps fun piece hp => ?_
  exact (endsBefore_of_pieces hps piece hp).congr (by rw [hbc, hhe])

def Statement.texts (stmt : Statement) : List Chars :=
  stmt.preamble :: stmt.clauses.map (·.text)

def chunks (gs : List Piece × List (Keyword × List Piece)) :
    List (List Piece) := gs.1 :: gs.2.map (·.2)

lemma texts_split (s : Chars) : (split s).texts = (chunks (groups s)).map textOf := by
  have hte := map_clausesOf (fun _ text => text) (textOf (groups s).1).length (groups s).2
  simp [split_eq_groups, Statement.texts, chunks, hte]

lemma chunks_append (prev : Chars) (depth : Nat) (pre : Option Char) (front : List Piece) :
    ∃ prev' xs x, xs.flatten ++ x = front ∧
      ∀ rest, chunks (groupFrom prev depth pre (front ++ rest)) =
        xs ++ (x ++ (groupFrom prev' (depthOver depth front) (lastOver pre front) rest).1) ::
          (groupFrom prev' (depthOver depth front) (lastOver pre front) rest).2.map (·.2) := by
  induction front generalizing prev depth pre with
  | nil => exact ⟨prev, [], [], rfl, fun rest => rfl⟩
  | cons piece os ih =>
    obtain ⟨prev', xs, x, hfr, hr⟩ :=
      ih (piece.wordAfter pre prev) (piece.depthAfter depth) piece.text.getLast?
    obtain ⟨ys, y, hcons, hch⟩ : ∃ ys y, ys.flatten ++ y = piece :: os ∧ ∀ head tail fst later,
        head :: tail = xs ++ (x ++ fst) :: later → (piece :: head) :: tail = ys ++
          (y ++ fst) :: later := by
      cases xs with
      | nil =>
        refine ⟨[], piece :: x, by simpa using hfr, ?_⟩
        rintro head tail fst later ⟨⟩
        rfl
      | cons z zs =>
        refine ⟨(piece :: z) :: zs, x, by simpa using hfr, ?_⟩
        rintro head tail fst later ⟨⟩
        rfl
    cases hst : piece.starts? depth pre prev with
    | none =>
      refine ⟨prev', ys, y, hcons, fun rest => ?_⟩
      rw [cons_append, groupFrom_of_none hst]
      exact hch _ _ _ _ (hr rest)
    | some kw =>
      refine ⟨prev', [] :: ys, y, by simpa using hcons, fun rest => ?_⟩
      rw [cons_append, groupFrom_of_some hst]
      exact congrArg ([] :: ·) (hch _ _ _ _ (hr rest))

def Enclosure.last : Enclosure → Char
  | .quoted quote => quote
  | .block => '/'
  | .line => '\n'

lemma getLast?_around (enc : Enclosure) (inner : Chars) :
    (enc.around inner).getLast? = some enc.last := by
  cases enc <;> simp [Enclosure.around, Enclosure.last, getLast?_cons]

/-- The statements with a given text on either side that differ in a quoted text or a comment
between them. -/
def Enclosure.within (enclosure : Enclosure) (a inner b : Chars) : Chars :=
  a ++ (enclosure.around inner ++ b)

variable {enc : Enclosure}

lemma words_within (h : enc.Admits inner)
    (hps : pieces (enc.within a inner b) = pieces a ++ pieces (enc.around inner ++ b)) :
    words (enc.within a inner b) = words a ++ wordsFrom (a.length + (enc.around inner).length)
      (depthOver 0 (pieces a)) (some enc.last) (pieces b) := by
  rw [words, hps, wordsFrom_append, pieces_around h, textOf_pieces, Nat.zero_add, wordsFrom_cons,
    getLast?_around]
  cases enc <;> rfl

lemma texts_within (enc : Enclosure) (a b : Chars) :
    ∃ xs x y ys, xs.flatten ++ x = a ∧ y ++ ys.flatten = b ∧ ∀ inner, enc.Admits inner →
      pieces (enc.within a inner b) = pieces a ++ pieces (enc.around inner ++ b) →
      (split (enc.within a inner b)).texts = xs ++ (x ++ (enc.around inner ++ y)) :: ys := by
  obtain ⟨prev, xs, x, hfr, hch⟩ := chunks_append [] 0 none (pieces a)
  have hfl := groupFrom_flatten prev (depthOver 0 (pieces a)) (some enc.last) (pieces b)
  -- the chunk in which the piece stands goes on after it in the same way, whatever is enclosed
  have hgr (inner : Chars) : groupFrom prev (depthOver 0 (pieces a)) (lastOver none (pieces a))
      (⟨enc.kind, enc.around inner⟩ :: pieces b) = (⟨enc.kind, enc.around inner⟩ ::
          (groupFrom prev (depthOver 0 (pieces a)) (some enc.last) (pieces b)).1,
        (groupFrom prev (depthOver 0 (pieces a)) (some enc.last) (pieces b)).2) := by
    rw [← getLast?_around enc inner]
    cases enc <;> rfl
  generalize groupFrom prev (depthOver 0 (pieces a)) (some enc.last) (pieces b) = after at hfl hgr
  refine ⟨xs.map textOf, textOf x, textOf after.1, after.2.map fun group =>
    textOf group.2, ?_, ?_, ?_⟩
  · rw [← textOf_pieces a, ← hfr, textOf_append, textOf_flatten]
  · rw [← textOf_pieces b, ← hfl, textOf_append, flatMap_def, textOf_flatten, map_map]
    rfl
  · intro inner hin hps
    rw [texts_split, groups, hps, pieces_around hin, hch, hgr]
    simp

/-- The content of a quoted text or a comment makes no difference for a statement: the words and the
clauses are the same up to where they stand, and the texts are the same up to this content. -/
theorem enclosed_makes_no_difference (enclosure : Enclosure) {inner inner' : List Char} (h : enclosure.Admits inner)
    (h' : enclosure.Admits inner') {a b : List Char} (hreached : Reaches a (enclosure.around inner ++ b)) :
    Forall₂ (Word.Matches (Moved a.length (enclosure.around inner).length (enclosure.around inner').length))
      (words (enclosure.within a inner b)) (words (enclosure.within a inner' b)) ∧
    Forall₂ (Clause.Matches (Moved a.length (enclosure.around inner).length (enclosure.around inner').length))
      (split (enclosure.within a inner b)).clauses (split (enclosure.within a inner' b)).clauses ∧
    ∃ xs x y ys, xs.flatten ++ x = a ∧ y ++ ys.flatten = b ∧
      (split (enclosure.within a inner b)).texts = xs ++ (x ++ (enclosure.around inner ++ y)) :: ys ∧
      (split (enclosure.within a inner' b)).texts = xs ++ (x ++ (enclosure.around inner' ++ y)) :: ys := by
  have hpieces : pieces (enclosure.within a inner b) = _ := hreached.pieces rfl
  have hpieces' : pieces (enclosure.within a inner' b) = _ :=
    hreached.pieces (by cases enclosure <;> rfl)
  have hwords : Forall₂ (Word.Matches (Moved a.length (enclosure.around inner).length
      (enclosure.around inner').length)) (words (enclosure.within a inner b))
      (words (enclosure.within a inner' b)) := by
    rw [words_within h hpieces, words_within h' hpieces']
    exact rel_append (forall₂_words_before _ _ (Nat.le_refl _)) (forall₂_words_after _ _ _ 0 _ _ _)
  obtain ⟨xs, x, y, ys, ha, hb, htexts⟩ := texts_within enclosure a b
  exact ⟨hwords, forall₂_clauses_iff.mpr ((forall₂_startsFrom_iff hwords).mpr fun _ _ => rfl), xs,
    x, y, ys, ha, hb, htexts inner h hpieces, htexts inner' h' hpieces'⟩

/-- A keyword and an open bracket in a quoted text are not read. -/
theorem quoted_makes_no_difference :
    (Enclosure.quoted '\x27').Admits "RETURN (".toList ∧ (Enclosure.quoted '\x27').Admits "// [".toList ∧
      Forall₂ (Clause.Matches (Moved 22 10 6)) (split "MATCH (n) WHERE n.t = 'RETURN (' SET n.k = 1".toList).clauses
        (split "MATCH (n) WHERE n.t = '// [' SET n.k = 1".toList).clauses := by
  have hreached : Reaches "MATCH (n) WHERE n.t = ".toList
      ((Enclosure.quoted '\x27').around "RETURN (".toList ++ " SET n.k = 1".toList) :=
    ⟨_, _, (take_append_drop 14 _).symm, by decide +kernel⟩
  have hfirst : (Enclosure.quoted '\x27').Admits "RETURN (".toList :=
    ⟨rfl, by decide, fun _ => by decide⟩
  have hsecond : (Enclosure.quoted '\x27').Admits "// [".toList :=
    ⟨rfl, by decide, fun _ => by decide⟩
  exact ⟨hfirst, hsecond, (enclosed_makes_no_difference _ hfirst hsecond hreached).2.1⟩

/-! ## Brackets -/

/-- In a whole text nothing is open at the end. -/
structure IsWhole (m : Chars) : Prop where
  complete : ∀ piece ∈ pieces m, piece.isComplete
  matched : depthAfter? 0 (pieces m) = some 0

variable {opening closing : Char}

lemma capitalsAfter_congr (h : ws.map (·.text) = ws'.map (·.text)) :
    capitalsAfter prev ws = capitalsAfter prev ws' := by
  have hl := congrArg (fun texts => (texts.getLast?.map upperChars).getD prev) h
  simpa [capitalsAfter, getLast?_map, Function.comp_def] using hl

lemma map_text_wordsFrom {before' : Option Char} (h : isAccess pre = isAccess before')
    (off offset' depth depth' : Nat) (ps : List Piece) :
    (wordsFrom off depth pre ps).map (·.text) = (wordsFrom offset' depth' before' ps).map
      (·.text) := by
  induction ps generalizing pre before' off offset' depth depth' with
  | nil => rfl
  | cons piece rest ih =>
    have hw : piece.word? pre = piece.word? before' := by simp [word?, h]
    have hr := @ih piece.text.getLast? _ rfl (off + piece.text.length) (offset' + piece.text.length)
      (piece.depthAfter depth) (piece.depthAfter depth')
    cases hwr' : piece.word? before' <;> simp [wordsFrom_cons, hw, hwr', hr]

lemma pos_of_mem_wordsFrom {stop : Nat} {word : Word} (h : depthAfter? depth ps = some stop)
    (hw : word ∈ wordsFrom off (depth + 1) pre ps) : 0 < word.depth := by
  induction ps generalizing off depth pre with
  | nil => cases hw
  | cons piece rest ih =>
    obtain ⟨hbr, hr⟩ := depthAfter?_cons h
    rw [wordsFrom_cons, mem_append, depthAfter_add hbr] at hw
    rcases hw with h1 | hla
    · obtain ⟨text, -, rfl⟩ : ∃ text, piece.word? pre = some text ∧
          ⟨off, text, depth + 1⟩ = word := by
        simpa using h1
      exact Nat.succ_pos depth
    · exact ih hr hla

lemma isAccess_of_bracket {c : Char} (h : isOpening c ∨ isClosing c) :
    isAccess (some c) = isAccess none := by
  have hca : c = '(' ∨ c = '[' ∨ c = '\x7b' ∨ c = ')' ∨ c = ']' ∨ c = '\x7d' := by
    simpa [isOpening, isClosing, or_assoc] using h
  rcases hca with rfl | rfl | rfl | rfl | rfl | rfl <;> rfl

lemma pieces_bracketed (hop : isOpening opening) (hclo : isClosing closing) (h : IsWhole m)
    (b : Chars) : pieces (opening :: (m ++ closing :: b)) =
      ⟨.opening, [opening]⟩ :: (pieces m ++ ⟨.closing, [closing]⟩ :: pieces b) := by
  have hen : ∀ piece, (pieces m).getLast? = some piece → piece.EndsBefore (closing :: b) := by
    intro piece hp
    refine .inr ⟨h.complete piece (mem_of_getLast? hp), ?_⟩
    rintro c ⟨⟩
    have hca : closing = ')' ∨ closing = ']' ∨ closing = '\x7d' := by
      simpa [isClosing, or_assoc] using hclo
    rcases hca with rfl | rfl | rfl <;> unfold goesOn <;> split <;> first | rfl | decide | simp
  rw [pieces_opening hop, pieces_append_of_endsBefore hen, pieces_closing hclo]

lemma starts_bracketed (hop : isOpening opening) (hclo : isClosing closing) (h : IsWhole m)
    (hdp : depthOver 0 (pieces a) = 0)
    (hps : pieces (a ++ opening :: (m ++ closing :: b)) = pieces a ++
      pieces (opening :: (m ++ closing :: b))) :
    starts (a ++ opening :: (m ++ closing :: b)) = starts a ++
      startsFrom (capitalsAfter [] (words a ++ words m))
      (wordsFrom (a.length + 1 + m.length + 1) 0 none (pieces b)) := by
  have hws : words (a ++ opening :: (m ++ closing :: b)) = words a ++
      wordsFrom (a.length + 1) 1 (some opening) (pieces m) ++
        wordsFrom (a.length + 1 + m.length + 1) 0 (some closing) (pieces b) := by
    have hin := depthOver_add h.matched 1
    rw [words, hps, pieces_bracketed hop hclo h, wordsFrom_append, hdp, wordsFrom_cons,
      wordsFrom_append, wordsFrom_cons, textOf_pieces, textOf_pieces]
    simp_all [word?, depthAfter, words]
  have hno : startsFrom (capitalsAfter [] (words a))
      (wordsFrom (a.length + 1) 1 (some opening) (pieces m)) = [] :=
    startsFrom_eq_nil fun word hw => pos_of_mem_wordsFrom h.matched hw
  have hl : capitalsAfter [] (words a ++ wordsFrom (a.length + 1) 1 (some opening) (pieces m)) =
      capitalsAfter [] (words a ++ words m) := by
    refine capitalsAfter_congr ?_
    rw [map_append, map_append, map_text_wordsFrom (isAccess_of_bracket (.inl hop)), ← words]
  rw [starts, hws, startsFrom_append, startsFrom_append, hno, append_nil, hl,
    wordsFrom_congr (isAccess_of_bracket (.inr hclo))]
  rfl

/-- Exchanging what stands in brackets outside all others keeps the clauses, up to where they stand,
exactly if the first word after the brackets goes on with a clause after both last words before it
or after neither. -/
theorem bracketed_makes_no_difference_iff {opening closing : Char} (hopening : isOpening opening)
    (hclosing : isClosing closing) {a b m m' : List Char} (h : IsWhole m) (h' : IsWhole m')
    (hreached : Reaches a (opening :: (m ++ closing :: b))) (hdepth : depthOver 0 (pieces a) = 0) :
    Forall₂ (Clause.Matches (Moved (a.length + 1) m.length m'.length))
        (split (a ++ opening :: (m ++ closing :: b))).clauses (split (a ++ opening :: (m' ++ closing :: b))).clauses ↔
      ∀ word, (words b).head? = some word → word.depth = 0 →
        ∀ keyword, Keyword.ofCapitals? (Text.upperChars word.text) = some keyword →
          keyword.continues (capitalsAfter [] (words a ++ words m)) =
            keyword.continues (capitalsAfter [] (words a ++ words m')) := by
  have hbefore : Forall₂ (fun start start' => start'.2 = start.2 ∧
      Moved (a.length + 1) m.length m'.length start.1 start'.1) (starts a) (starts a) :=
    (forall₂_startsFrom_iff (forall₂_words_before _ _ (Nat.le_succ _))).mpr fun _ _ => rfl
  have hafter := forall₂_words_after (a.length + 1) m.length m'.length 1 0 none (pieces b)
  rw [forall₂_clauses_iff, starts_bracketed hopening hclosing h hdepth (hreached.pieces rfl),
    starts_bracketed hopening hclosing h' hdepth (hreached.pieces rfl)]
  refine Iff.trans ⟨fun hall => ?_, fun hlater => rel_append hbefore hlater⟩
    ((forall₂_startsFrom_iff hafter).trans ?_)
  · simpa using forall₂_drop (starts a).length hall
  · rw [← Nat.add_zero (a.length + 1 + m.length + 1), wordsFrom_eq_map, head?_map]
    cases hhead : (words b).head? with
    | none => simp [words] at hhead; simp [hhead]
    | some word => simp [words] at hhead; simp [hhead, starts?_eq_iff]

/-- After a label `On` in brackets, `CREATE` is taken for the rest of `ON CREATE`. -/
theorem label_makes_difference :
    IsWhole "a:On".toList ∧ IsWhole "a".toList ∧
      ¬ Forall₂ (Clause.Matches (Moved 7 4 1)) (split "MATCH (a:On) CREATE (b)".toList).clauses
        (split "MATCH (a) CREATE (b)".toList).clauses := by
  have hfirst : IsWhole "a:On".toList := ⟨by decide +kernel, by decide +kernel⟩
  have hsecond : IsWhole "a".toList := ⟨by decide +kernel, by decide +kernel⟩
  have hreached : Reaches "MATCH ".toList ('(' :: ("a:On".toList ++ ')' :: " CREATE (b)".toList)) :=
    ⟨_, _, (take_append_drop 2 _).symm, by decide +kernel⟩
  refine ⟨hfirst, hsecond, fun hsame => ?_⟩
  have hcontinues := (bracketed_makes_no_difference_iff rfl rfl hfirst hsecond hreached
    (by decide +kernel)).mp hsame
    ⟨1, "CREATE".toList, 0⟩ (by decide +kernel) rfl .create (by decide +kernel)
  revert hcontinues
  decide +kernel

end GraphApi.Cypher
