import GraphApi.Proofs.Cypher.Lexeme
import GraphApi.Proofs.Cypher.Threading

/-!
# The projections of a clause, read outside brackets, quotes and comments

A clause that projects is read as the word that removes repeated rows, items between commas, and
what orders, cuts or filters the rows. A projection is added by the text of the clause alone
(`keepsProjections_iff`).
-/

namespace GraphApi.Cypher

open List Lexeme Text Char

variable {c : Char} {name projection rest trail projs text : Chars} {item : List Chars}
  {list : List Lexeme}

lemma toNat_ofNat_of_isNameChar {code : Nat} (h : isNameChar (ofNat code)) :
    (ofNat code).toNat = code := by
  by_cases hva : code.isValidChar
  · have hch : ofNat code = ofNatAux code hva := dif_pos hva
    rw [hch]
    rfl
  · have hnu : ofNat code = ofNat 0 := by
      simp [ofNat, hva]
      rfl
    have hno : isNameChar (ofNat 0) = false := by decide
    rw [hnu, hno] at h
    cases h

/-- Of the letters beyond ASCII whose capital is one character two have it in ASCII. -/
lemma le_capitalCode? {code capital : Nat} (hco : 128 ≤ code)
    (h : capitalCode? code = some capital) : 128 ≤ capital ∨ code = 305 ∨ code = 383 := by
  unfold capitalCode? at h
  split at h
  next hal =>
    have hpa : alternating.all fun pair => 128 ≤ pair.1 := by decide +kernel
    obtain ⟨pair, hpi, hwi⟩ := any_eq_true.mp hal
    have h1 := all_eq_true.mp hpa pair hpi
    simp only [Bool.and_eq_true, decide_eq_true_eq, beq_iff_eq, Option.some_inj] at hwi h1 h
    omega
  · split at h
    next fst last small hfn =>
      have hrw : letterRows.all fun row => 128 ≤ row.1 := by decide +kernel
      have h1 := all_eq_true.mp hrw _ (mem_of_find?_eq_some hfn)
      simp only [decide_eq_true_eq, Option.some_inj] at h1 h
      omega
    · have hst : strayCapitals.all fun stray => 128 ≤ stray.2 || [305, 383].contains stray.1 := by
        decide +kernel
      obtain ⟨front, back, hta, _⟩ := lookup_eq_some_iff.mp h
      simpa using all_eq_true.mp hst (code, capital) (by simp [hta])

lemma isNameChar_of_upperChar (h : ∀ d ∈ upperChar c, d.toNat < 128 ∧ isNameChar d) :
    isNameChar c := by
  unfold upperChar at h
  split at h
  · -- a letter in ASCII and its capital
    rename_i has
    have hco : (range 128).all fun code =>
        isNameChar (ofNat code) || !isNameChar (ofNat code).toUpper := by decide +kernel
    have hcd := all_eq_true.mp hco c.toNat (mem_range.mpr has)
    rw [ofNat_toNat, (h _ mem_cons_self).2] at hcd
    simpa using hcd
  next has =>
    split at h
    next codes hlo =>
      have hex : upperExpansions.all fun e =>
          e.2.any (fun code => 128 ≤ (ofNat code).toNat) || isNameChar (ofNat e.1) := by
        decide +kernel
      obtain ⟨front, back, hta, _⟩ := lookup_eq_some_iff.mp hlo
      have he := all_eq_true.mp hex (c.toNat, codes) (by simp [hta])
      rw [ofNat_toNat, Bool.or_eq_true] at he
      rcases he with hla | hn
      · obtain ⟨code, hcd, hla⟩ := any_eq_true.mp hla
        have hsm := (h _ (mem_map_of_mem hcd)).1
        rw [decide_eq_true_eq] at hla
        omega
      · exact hn
    · obtain ⟨hsm, hn⟩ := h _ mem_cons_self
      cases hca : capitalCode? c.toNat with
      | none =>
        rw [hca] at hsm
        exact absurd hsm has
      | some capital =>
        rw [hca, Option.map_some, Option.getD_some] at hsm hn
        rw [toNat_ofNat_of_isNameChar hn] at hsm
        have hle : isNameChar (ofNat 305) ∧ isNameChar (ofNat 383) := by decide +kernel
        rw [← ofNat_toNat c]
        rcases le_capitalCode? (Nat.le_of_not_lt has) hca with hla | hcd | hcd
        · omega
        · exact hcd ▸ hle.1
        · exact hcd ▸ hle.2

/-! ## Reading the projections of a clause -/

def Lexeme.isKeyword (capitals : String) (lexeme : Lexeme) : Bool :=
  lexeme.isWord && lexeme.depth == 0 && Text.upperChars lexeme.text == capitals.toList

def startsTail : List Lexeme → Bool
  | [] => false
  | first :: rest =>
    ["SKIP", "LIMIT", "WHERE"].any (first.isKeyword ·) ||
      first.isKeyword "ORDER" && rest.head?.any (·.isKeyword "BY")

/-- The lexemes of the items, and those of what orders, cuts or filters the rows. -/
def splitTail : List Lexeme → List Lexeme × List Lexeme
  | [] => ([], [])
  | first :: rest =>
    if startsTail (first :: rest) then ([], first :: rest)
      else (first :: (splitTail rest).1, (splitTail rest).2)

def Lexeme.isComma (lexeme : Lexeme) : Bool := lexeme.depth == 0 && lexeme.text == [',']

def itemsOf (list : List Lexeme) : List (List Chars) :=
  ((list.splitOnP Lexeme.isComma).filter (!·.isEmpty)).map (·.map (·.text))

/-- What is read of a clause that projects: whether repeated rows are removed, its items, and the
rest. -/
structure Projections where
  isDistinct : Bool
  items : List (List Chars)
  tail : List Lexeme
deriving DecidableEq, Repr

def readProjections (list : List Lexeme) : Projections :=
  let isDistinct := list.head?.any (·.isKeyword "DISTINCT")
  let parts := splitTail (if isDistinct then list.tail else list)
  { isDistinct, items := itemsOf parts.1, tail := parts.2 }

def projectionsOf (clause : Chars) : Projections := readProjections (lexemes clause).tail

@[simp] lemma Lexeme.text_word (text : Chars) : (word text).text = text := rfl

@[simp] lemma Lexeme.text_sign (c : Char) : (sign c).text = [c] := rfl

@[simp] lemma Lexeme.isComma_comma : (sign ',').isComma := rfl

@[simp] lemma Lexeme.isComma_star : (sign '*').isComma = false := rfl

@[simp] lemma Lexeme.isKeyword_sign (capitals : String) (c : Char) :
    (sign c).isKeyword capitals = false := rfl

lemma Lexeme.isKeyword_word (capitals : String) (text : Chars) :
    (word text).isKeyword capitals = (upperChars text == capitals.toList) := by
  simp [isKeyword, word]

/-! ## Items -/

lemma itemsOf_append_comma {fst : List Lexeme} (hne : fst ≠ [])
    (h1 : ∀ lexeme ∈ fst, lexeme.isComma = false) {comma : Lexeme} (hco : comma.isComma)
    (list : List Lexeme) : itemsOf (fst ++ comma :: list) = fst.map (·.text) :: itemsOf list := by
  rw [itemsOf, splitOnP_append_cons_of_forall_mem h1 _ hco, filter_cons,
    if_pos (by simpa using hne)]
  rfl

lemma itemsOf_eq_singleton {fst : List Lexeme} (hne : fst ≠ [])
    (h1 : ∀ lexeme ∈ fst, lexeme.isComma = false) : itemsOf fst = [fst.map (·.text)] := by
  rw [itemsOf, splitOnP_eq_singleton h1, filter_cons, if_pos (by simpa using hne)]
  rfl

lemma exists_head?_itemsOf_star (list : List Lexeme) :
    ∃ fst rest, list.splitOnP isComma = fst :: rest ∧
    (itemsOf (sign '*' :: list)).head? = some (['*'] :: fst.map (·.text)) := by
  obtain ⟨fst, rest, hsp⟩ := exists_cons_of_ne_nil (splitOnP_ne_nil isComma list)
  refine ⟨fst, rest, hsp, ?_⟩
  rw [itemsOf, splitOnP_cons_eq_if_modifyHead, if_neg (by simp), hsp]
  rfl

lemma head?_itemsOf_star (list : List Lexeme) :
    (itemsOf (sign '*' :: list)).head? = some [['*']] ↔ list.head?.all (·.isComma) := by
  obtain ⟨fst, rest, hsp, his⟩ := exists_head?_itemsOf_star list
  have h1 : fst = [] ↔ list.head?.all (·.isComma) := by
    cases list with
    | nil =>
      simp_all
    | cons lexeme more =>
      rw [splitOnP_cons_eq_if_modifyHead] at hsp
      cases hco : lexeme.isComma with
      | true => simp_all
      | false =>
        obtain ⟨other, os, hmo⟩ := exists_cons_of_ne_nil (splitOnP_ne_nil isComma more)
        simp_all
        grind
  rw [his, ← h1]
  simp

/-! ## Projections of a variable -/

def reservedWords : List Chars := ["DISTINCT", "ORDER", "SKIP", "LIMIT", "WHERE"].map String.toList

/-- A text that can be read in a list of projections as the name of a variable. -/
structure IsVariable (name : Chars) : Prop where
  ne_nil : name ≠ []
  isNameChar : ∀ c ∈ name, isNameChar c
  free : Text.upperChars name ∉ reservedWords

/-- A projection of a variable with the words of its item: the variable under its name, or handed on
under another. -/
inductive IsProjection (name : Chars) : Chars → List Chars → Prop
  | plain : IsProjection name name [name]
  | renamed : IsProjection name (exportProjection name) [name, ['A', 'S'], '_' :: name]

lemma isVariable_underscore (h : IsLetters name) : IsVariable ('_' :: name) := by
  refine ⟨by simp, ?_, ?_⟩
  · intro c hc
    rcases mem_cons.mp hc with rfl | hc
    · decide
    · exact h c hc
  · -- none of the words starts with an underscore
    intro hm
    have hst : ∀ word ∈ reservedWords, word.head? ≠ some '_' := by decide
    refine hst _ hm ?_
    rfl

lemma isVariable_as : IsVariable ['A', 'S'] := ⟨by decide, all_eq_true.mp (by decide), by decide⟩

lemma IsProjection.forall_words {P : Chars → Prop}
    (h : IsProjection name projection item) (hn : P name)
    (has : P ['A', 'S']) (hun : P ('_' :: name)) : ∀ word ∈ item, P word := by
  cases h with
  | plain => simpa using hn
  | renamed => simpa using ⟨hn, has, hun⟩

lemma IsProjection.isVariable (h : IsProjection name projection item) (hn : IsVariable name) :
    ∀ word ∈ item, IsVariable word :=
  h.forall_words hn isVariable_as (isVariable_underscore hn.isNameChar)

lemma IsProjection.ne_nil (h : IsProjection name projection item) : item ≠ [] := by
  cases h <;> simp

lemma IsVariable.readsAs (h : IsVariable name) (hr : EndsName rest) :
    ReadsAs name [word name] rest :=
  readsAs_word h.ne_nil h.isNameChar hr

lemma readsAs_space (rest : Chars) :
    ReadsAs [' '] [] rest := readsAs_blanks (all_eq_true.mp (by decide)) rest

lemma readsAs_withStart (rest : Chars) : ReadsAs withStart [word withLetters] rest := by
  have hle : IsLetters withLetters := all_eq_true.mp (by decide)
  have hw : ReadsAs withLetters [word withLetters] (' ' :: rest) :=
    readsAs_word (by decide) hle (endsName_cons (by decide) rest)
  exact hw.append (readsAs_space rest)

lemma readsAs_comma (rest : Chars) : ReadsAs [','] [sign ','] rest :=
  readsAs_sign (by decide) (by decide) (by decide) (by decide) rest

lemma readsAs_star (rest : Chars) : ReadsAs ['*'] [sign '*'] rest :=
  readsAs_sign (by decide) (by decide) (by decide) (by decide) rest

lemma IsProjection.readsAs (h : IsProjection name projection item) (hn : IsVariable name)
    (hr : EndsName rest) : ReadsAs projection (item.map word) rest := by
  cases h with
  | plain => exact hn.readsAs hr
  | renamed =>
    have hsp (more : Chars) : EndsName (' ' :: more) := endsName_cons (by decide) more
    have ht : exportProjection name = name ++
        ([' '] ++ (['A', 'S'] ++ ([' '] ++ '_' :: name))) := by
      simp [exportProjection]
    rw [ht]
    have hl := (readsAs_space _).append ((isVariable_underscore hn.isNameChar).readsAs hr)
    have has := (readsAs_space _).append ((isVariable_as.readsAs (hsp _)).append hl)
    exact (hn.readsAs (hsp _)).append has

/-! ## Lexemes of a clause with a projection added -/

lemma lexemes_trimStart (s rest : Chars) : lexemes (trimStart s ++ rest) = lexemes (s ++ rest) := by
  obtain ⟨bs, hbl, hsp⟩ := trimStart_append s
  calc lexemes (trimStart s ++ rest)
      = lexemes (bs ++ (trimStart s ++ rest)) := (readsAs_blanks hbl _).lexemes_append.symm
    _ = lexemes (s ++ rest) := by rw [← append_assoc, ← hsp]

lemma endsName_of_isBlanks (htr : IsBlanks trail) : EndsName trail := fun c hc =>
  (sort_of_isBlank (htr c (mem_of_head? hc))).2.1

/-- The lexemes of a list of projections before and after an item is added to it, after a star or in
front. -/
inductive Added (item : List Chars) : (afterStar : Bool) → List Lexeme → List Lexeme → Prop
  | first : Added item false [] (item.map Lexeme.word)
  | front (list : List Lexeme) : Added item false list
    (item.map Lexeme.word ++ Lexeme.sign ',' :: list)
  | star (list : List Lexeme) :
    Added item true (Lexeme.sign '*' :: list)
      (Lexeme.sign '*' :: Lexeme.sign ',' :: (item.map Lexeme.word ++ list))

lemma lexemes_addToProjections_star (h : IsProjection name projection item) (hn : IsVariable name)
    (htr : IsBlanks trail) (rest : Chars) :
    lexemes (addToProjections ('*' :: rest) projection ++ trail) =
      sign '*' :: sign ',' :: (item.map word ++ lexemes (rest ++ trail)) := by
  have hnew : ∀ tail, EndsName tail → lexemes ('*' :: ',' :: ' ' :: (projection ++ tail)) =
        sign '*' :: sign ',' :: (item.map word ++ lexemes tail) := by
    intro tail hta
    have hst := (readsAs_comma _).append ((readsAs_space _).append (h.readsAs hn hta))
    simpa using ((readsAs_star _).append hst).lexemes_append
  rw [← lexemes_trimStart rest, addToProjections]
  split
  next hnil =>
    rw [hnil]
    simpa using hnew trail (endsName_of_isBlanks htr)
  next tail hco =>
    rw [hco]
    simpa using hnew (',' :: (tail ++ trail)) (endsName_cons (by decide) _)
  · have hsp := hnew (' ' :: (trimStart rest ++ trail)) (endsName_cons (by decide) _)
    have hsk : lexemes (' ' :: (trimStart rest ++ trail)) = lexemes (trimStart rest ++ trail) :=
      (readsAs_space _).lexemes_append
    rw [hsk] at hsp
    simpa using hsp

lemma added_addToProjections (h : IsProjection name projection item) (hn : IsVariable name)
    (htr : IsBlanks trail) (projs : Chars) :
    Added item (projs.head? == some '*') (lexemes (projs ++ trail))
      (lexemes (addToProjections projs projection ++ trail)) := by
  by_cases hst : projs.head? = some '*'
  · obtain ⟨rest, rfl⟩ := head?_eq_some_iff.mp hst
    have hl : lexemes ('*' :: rest ++ trail) = sign '*' :: lexemes (rest ++ trail) :=
      (readsAs_star _).lexemes_append
    rw [lexemes_addToProjections_star h hn htr, hl]
    exact .star _
  · have hfa : (projs.head? == some '*') = false := by simpa using hst
    rw [hfa]
    unfold addToProjections
    split
    · have hbl := lexemes_blanks htr
      rw [(h.readsAs hn (endsName_of_isBlanks htr)).lexemes_append, nil_append, hbl, append_nil]
      exact .first
    · exact absurd rfl hst
    · have hl := (readsAs_comma _).append (readsAs_space (projs ++ trail))
      have hfr := (h.readsAs hn (endsName_cons (by decide) _)).append hl
      have hle := hfr.lexemes_append
      simp only [append_assoc, cons_append, nil_append, append_nil] at hle ⊢
      rw [hle]
      exact .front _

lemma letters_of_seesDistinct (h : seesDistinct projs) :
    upperChars (projs.take 8) = distinctWord ∧ projs.take 8 ≠ [] ∧ IsLetters (projs.take 8) := by
  rw [seesDistinct, Bool.and_eq_true, beq_iff_eq] at h
  refine ⟨h.1, ?_, ?_⟩
  · intro hnil
    rw [hnil] at h
    exact absurd h.1 (by decide)
  · have hle : distinctWord.all fun d => d.toNat < 128 && isNameChar d := by decide
    intro c hc
    refine isNameChar_of_upperChar fun d hd => ?_
    simpa using all_eq_true.mp hle d (mem_of_mem_upperChar h.1 hc hd)

/-- The lexeme of the word that removes repeated rows, if a text starts with it. -/
def distinctLexemes (projections : Chars) : List Lexeme :=
  if seesDistinct projections then [Lexeme.word (projections.take 8)] else []

lemma readsAs_distinctPart (projs rest : Chars) :
    ReadsAs (distinctPart projs) (distinctLexemes projs) rest := by
  unfold distinctPart distinctLexemes
  split
  next hds =>
    obtain ⟨_, hne, hle⟩ := letters_of_seesDistinct hds
    have hsp : EndsName ([' '] ++ rest) := endsName_cons (by decide) rest
    exact (readsAs_word hne hle hsp).append (readsAs_space rest)
  · exact ⟨joins_nil rest, lexemes_blanks nofun⟩

lemma lexemes_letters_append {letters : Chars} (hne : letters ≠ [])
    (hle : IsLetters letters) (more : Chars) : lexemes (letters ++ more) =
      word (letters ++ more.takeWhile isNameChar) :: lexemes (more.dropWhile isNameChar) := by
  have hw : IsLetters (letters ++ more.takeWhile isNameChar) := by
    intro c hc
    rcases mem_append.mp hc with hc | hc
    · exact hle c hc
    · exact all_eq_true.mp all_takeWhile c hc
  have hst : EndsName (more.dropWhile isNameChar) := by
    intro c hc
    have hhe := head?_dropWhile_not isNameChar more
    rw [hc] at hhe
    simpa using hhe
  have hrd := (readsAs_word (by simp [hne]) hw hst).lexemes_append
  rwa [append_assoc, takeWhile_append_dropWhile] at hrd

lemma lexemes_distinct_cases (htr : IsBlanks trail) (projs : Chars) : lexemes (projs ++ trail) =
      distinctLexemes projs ++ lexemes (withoutDistinct projs ++ trail) ∨
    seesDistinct projs ∧ ∃ os list, IsLetters os ∧
      lexemes (projs ++ trail) = word (projs.take 8 ++ '_' :: os) :: list ∧
      lexemes (withoutDistinct projs ++ trail) = word ('_' :: os) :: list := by
  unfold distinctLexemes withoutDistinct
  cases hds : seesDistinct projs with
  | false => exact .inl rfl
  | true =>
    obtain ⟨_, hne, hle⟩ := letters_of_seesDistinct hds
    have hwh : lexemes (projs ++ trail) =
          word (projs.take 8 ++ (projs.drop 8 ++ trail).takeWhile isNameChar) ::
          lexemes ((projs.drop 8 ++ trail).dropWhile isNameChar) := by
      rw [← lexemes_letters_append hne hle, ← append_assoc, take_append_drop]
    rw [if_pos rfl, if_pos rfl, lexemes_trimStart, hwh]
    cases hr : projs.drop 8 with
    | nil =>
      -- only blanks follow
      have hst : trail.takeWhile isNameChar = [] ∧ trail.dropWhile isNameChar = trail := by
        cases trail with
        | nil => exact ⟨rfl, rfl⟩
        | cons c more => simp [(sort_of_isBlank (htr c mem_cons_self)).2.1]
      refine .inl ?_
      rw [nil_append, hst.1, hst.2, append_nil]
      rfl
    | cons c more =>
      cases hc : isNameChar c with
      | false => exact .inl (by simp [hc])
      | true =>
        have hus : c = '_' := by
          have hat : projs[8]? = some c := by rw [← head?_drop, hr, head?_cons]
          rw [seesDistinct, hat] at hds
          have ho : isAlphanumeric c = false := by simpa using (Bool.and_eq_true_iff.mp hds).2
          simpa [isNameChar, ho] using hc
        subst hus
        refine .inr ⟨rfl, (more ++ trail).takeWhile isNameChar,
          lexemes ((more ++ trail).dropWhile isNameChar),
          fun d hd => all_eq_true.mp all_takeWhile d hd, ?_, ?_⟩
        · simp [hc]
        · have hle : IsLetters ['_'] := by simpa [IsLetters] using hc
          exact lexemes_letters_append (cons_ne_nil _ _) hle (more ++ trail)

lemma lexemes_of_seesDistinct (htr : IsBlanks trail) (projs : Chars)
    (hag : seesDistinct projs = (lexemes (projs ++ trail)).head?.any (·.isKeyword "DISTINCT")) :
    lexemes (projs ++ trail) = distinctLexemes projs ++
      lexemes (withoutDistinct projs ++ trail) := by
  rcases lexemes_distinct_cases htr projs with hl | ⟨hds, os, list, _, hlo, _⟩
  · exact hl
  · -- a longer word has more capitals
    have hcap := (letters_of_seesDistinct hds).1
    rw [hds, hlo, head?_cons, Option.any_some, isKeyword_word, eq_comm, beq_iff_eq, upperChars,
      flatMap_append] at hag
    rw [upperChars] at hcap
    rw [hcap] at hag
    have hno := append_right_eq_self.mp hag
    cases hno

lemma lexemes_withProjection {word : Chars} (hwt : IsWith word) (hw : IsLetters word)
    (hr : EndsName rest) (projection : Chars) :
    ∃ trail, IsBlanks trail ∧ lexemes (word ++ rest) = Lexeme.word word :: lexemes
      (trim rest ++ trail) ∧
      (projects (withoutDistinct (trim rest)) projection = false →
        lexemes (withProjection (word ++ rest) projection) =
          Lexeme.word withLetters :: (distinctLexemes (trim rest) ++
            lexemes (addToProjections (withoutDistinct (trim rest)) projection ++ trail))) := by
  obtain ⟨bs, trail, hbl, htr, hsp, _, hadd⟩ := withProjection_append hwt rest projection
  refine ⟨trail, htr, ?_, ?_⟩
  · have hl : lexemes rest = lexemes (trim rest ++ trail) :=
      (congrArg lexemes hsp).trans (readsAs_blanks hbl _).lexemes_append
    rw [(readsAs_word hwt.ne_nil hw hr).lexemes_append, hl]
    rfl
  · intro hmi
    have hnew := (readsAs_withStart _).append (readsAs_distinctPart (trim rest)
      (addToProjections (withoutDistinct (trim rest)) projection ++ trail))
    rw [hadd, if_neg (by simp [hmi])]
    simpa using hnew.lexemes_append

/-! ## Reading a clause with a projection added -/

lemma isKeyword_eq_false {word : Chars} (h : IsVariable word) {capitals : String}
    (hres : capitals.toList ∈ reservedWords) : (Lexeme.word word).isKeyword capitals = false := by
  rw [isKeyword_word, beq_eq_false_iff_ne]
  exact fun heq => h.free (heq ▸ hres)

lemma startsTail_word {word : Chars} (h : IsVariable word) (list : List Lexeme) :
    startsTail (Lexeme.word word :: list) = false := by
  have hsk := isKeyword_eq_false h (by decide : "SKIP".toList ∈ reservedWords)
  have hli := isKeyword_eq_false h (by decide : "LIMIT".toList ∈ reservedWords)
  have hwh := isKeyword_eq_false h (by decide : "WHERE".toList ∈ reservedWords)
  have hor := isKeyword_eq_false h (by decide : "ORDER".toList ∈ reservedWords)
  simp [startsTail, hsk, hli, hwh, hor]

lemma startsTail_sign (c : Char) (list : List Lexeme) : startsTail (sign c :: list) = false := by
  simp [startsTail]

lemma splitTail_sign (c : Char) (list : List Lexeme) :
    splitTail (sign c :: list) = (sign c :: (splitTail list).1, (splitTail list).2) := by
  rw [splitTail, if_neg (by simp [startsTail_sign])]

lemma splitTail_words (h : ∀ word ∈ item, IsVariable word) (list : List Lexeme) :
    splitTail (item.map word ++ list) =
      (item.map word ++ (splitTail list).1, (splitTail list).2) := by
  induction item with
  | nil => rfl
  | cons word os ih =>
    have hos := ih (forall_mem_cons.mp h).2
    rw [map_cons, cons_append, splitTail,
      if_neg (by simp [startsTail_word (h word mem_cons_self)]), hos]
    rfl

lemma isComma_word {word : Chars} (h : IsVariable word) : (Lexeme.word word).isComma = false := by
  have hco : word ≠ [','] := by
    rintro rfl
    exact absurd (h.isNameChar ',' mem_cons_self) (by decide)
  simp [isComma, Lexeme.word, hco]

lemma isComma_words (h : ∀ word ∈ item, IsVariable word) :
    ∀ lexeme ∈ item.map word, lexeme.isComma = false := by
  refine forall_mem_map.mpr fun word hw => ?_
  exact isComma_word (h word hw)

section Added

variable {pre after : List Lexeme} {afterStar : Bool}

lemma Added.sublist (h : Added item afterStar pre after) : pre <+ after := by
  cases h with
  | first => exact nil_sublist _
  | front list => exact (sublist_cons_self _ _).trans (sublist_append_right _ _)
  | star list => exact ((sublist_append_right _ _).trans (sublist_cons_self _ _)).cons_cons _

/-- What follows the items stays. -/
lemma Added.tail (h : Added item afterStar pre after) (hi : ∀ word ∈ item, IsVariable word) :
    (splitTail after).2 = (splitTail pre).2 := by
  cases h with
  | first => simpa using congrArg Prod.snd (splitTail_words hi [])
  | front list => rw [splitTail_words hi, splitTail_sign]
  | star list => rw [splitTail_sign, splitTail_sign, splitTail_words hi, splitTail_sign]

lemma Added.not_distinct (h : Added item afterStar pre after) (hi : ∀ word ∈ item, IsVariable word)
    (hne : item ≠ []) : after.head?.any (·.isKeyword "DISTINCT") = false := by
  obtain ⟨word, os, rfl⟩ := exists_cons_of_ne_nil hne
  have hw := isKeyword_eq_false (hi word mem_cons_self)
    (by decide : "DISTINCT".toList ∈ reservedWords)
  cases h with
  | first => simpa using hw
  | front list => simpa using hw
  | star list => simp

lemma map_text_words (item : List Chars) : (item.map word).map (·.text) = item := by
  simp [map_map, Function.comp_def]

lemma Added.items_front (h : Added item false pre after) (hi : ∀ word ∈ item, IsVariable word)
    (hne : item ≠ []) : itemsOf (splitTail after).1 = item :: itemsOf (splitTail pre).1 := by
  have hws : item.map word ≠ [] := by simpa using hne
  have hco := isComma_words hi
  cases h with
  | first =>
    have hsp := splitTail_words hi []
    rw [append_nil] at hsp
    rw [hsp, splitTail, append_nil, itemsOf_eq_singleton hws hco, map_text_words]
    rfl
  | front list =>
    rw [splitTail_words hi, splitTail_sign, itemsOf_append_comma hws hco isComma_comma,
      map_text_words]

lemma Added.items_star (h : Added item true pre after) (hi : ∀ word ∈ item, IsVariable word)
    (hne : item ≠ []) :
    (itemsOf (splitTail after).1).head? = some [['*']] ∧
      ((itemsOf (splitTail pre).1).head? = some [['*']] →
        ∃ os, itemsOf (splitTail pre).1 = [['*']] :: os ∧
          itemsOf (splitTail after).1 = [['*']] :: item :: os) := by
  have hws : item.map word ≠ [] := by simpa using hne
  have hco := isComma_words hi
  have hsi : ∀ lexeme ∈ [sign '*'], lexeme.isComma = false := by simp
  have hst : ∀ {comma : Lexeme}, comma.isComma → ∀ list,
      itemsOf (sign '*' :: comma :: list) = [['*']] :: itemsOf list := fun hco list =>
    itemsOf_append_comma (cons_ne_nil _ _) hsi hco list
  cases h with
  | star list =>
    rw [splitTail_sign, splitTail_sign, splitTail_words hi, splitTail_sign, hst isComma_comma]
    refine ⟨rfl, fun hal => ?_⟩
    rw [head?_itemsOf_star] at hal
    generalize (splitTail list).1 = rest at hal ⊢
    cases rest with
    | nil =>
      refine ⟨[], itemsOf_eq_singleton (cons_ne_nil _ _) hsi, ?_⟩
      rw [append_nil, itemsOf_eq_singleton hws hco, map_text_words]
    | cons comma more =>
      have hmo : comma.isComma := by simpa using hal
      exact ⟨_, hst hmo more, by rw [itemsOf_append_comma hws hco hmo, map_text_words]⟩

/-- The item joins the other items, after a star that comes first. -/
lemma Added.items (h : Added item afterStar pre after) (hi : ∀ word ∈ item, IsVariable word)
    (hne : item ≠ [])
    (hst : afterStar ↔ (itemsOf (splitTail pre).1).head? = some [['*']]) :
    ∃ front back, itemsOf (splitTail pre).1 = front ++ back ∧ itemsOf (splitTail after).1 = front ++
      item :: back ∧
      ((itemsOf (splitTail pre).1).head? = some [['*']] → (itemsOf (splitTail after).1).head? =
        some [['*']]) := by
  cases afterStar with
  | false => exact ⟨[], _, rfl, h.items_front hi hne, fun hhe => absurd (hst.mpr hhe) (by simp)⟩
  | true =>
    obtain ⟨hhe, hos⟩ := h.items_star hi hne
    obtain ⟨os, hb, ha⟩ := hos (hst.mp rfl)
    exact ⟨[[['*']]], os, hb, ha, fun _ => hhe⟩

lemma ne_star (hi : ∀ word ∈ item, IsVariable word) : item ≠ [['*']] := by
  rintro rfl
  exact absurd ((hi ['*'] mem_cons_self).isNameChar '*' mem_cons_self) (by decide)

lemma Added.star_iff (h : Added item afterStar pre after) (hi : ∀ word ∈ item, IsVariable word)
    (hne : item ≠ []) (his : itemsOf (splitTail after).1 = itemsOf (splitTail pre).1 ∨ ∃ front back,
      itemsOf (splitTail pre).1 = front ++ back ∧
        itemsOf (splitTail after).1 = front ++ item :: back)
    (hst : (itemsOf (splitTail pre).1).head? = some [['*']] → (itemsOf (splitTail after).1).head? =
      some [['*']]) :
    afterStar ↔ (itemsOf (splitTail pre).1).head? = some [['*']] := by
  cases afterStar with
  | false =>
    refine ⟨fun hfa => (Bool.false_ne_true hfa).elim, fun hhe => ?_⟩
    have h1 := hst hhe
    rw [h.items_front hi hne, head?_cons, Option.some_inj] at h1
    exact absurd h1 (ne_star hi)
  | true =>
    obtain ⟨hhe, _⟩ := h.items_star hi hne
    refine ⟨fun _ => ?_, fun _ => rfl⟩
    rcases his with heq | ⟨front, back, hb, ha⟩
    · rwa [heq] at hhe
    · rw [ha] at hhe
      cases front with
      | nil =>
        rw [nil_append, head?_cons, Option.some_inj] at hhe
        exact absurd hhe (ne_star hi)
      | cons fst more =>
        rwa [hb]

end Added

lemma readProjections_distinctLexemes
    (hl : seesDistinct projs = false → list.head?.any (·.isKeyword "DISTINCT") = false) :
    readProjections (distinctLexemes projs ++ list) =
      ⟨seesDistinct projs, itemsOf (splitTail list).1, (splitTail list).2⟩ := by
  unfold distinctLexemes
  cases hds : seesDistinct projs with
  | false => simp [readProjections, hl hds]
  | true =>
    have hcap := (letters_of_seesDistinct hds).1
    have hkw : (word (projs.take 8)).isKeyword "DISTINCT" := by
      rw [isKeyword_word, hcap]
      rfl
    simp [readProjections, hkw]

lemma projectionsOf_of_lexemes {word : Chars}
    (h : lexemes text = Lexeme.word word :: (distinctLexemes projs ++ list))
    (hl : seesDistinct projs = false → list.head?.any (·.isKeyword "DISTINCT") = false) :
    projectionsOf text = ⟨seesDistinct projs, itemsOf (splitTail list).1, (splitTail list).2⟩ := by
  rw [projectionsOf, h, tail_cons, readProjections_distinctLexemes hl]

def Clause.projectionText (clause : Clause) : Chars := withoutDistinct clause.body

lemma Clause.IsSplit.withProjection_cases {cl : Clause} (h : cl.IsSplit)
    (hkw : cl.keyword = .projecting) (hn : IsVariable name)
    (hpr : IsProjection name projection item) :
    ∃ word trail, IsWith word ∧ IsBlanks trail ∧
      lexemes cl.text = Lexeme.word word :: lexemes (cl.body ++ trail) ∧
      (projects cl.projectionText projection ∧ withProjection cl.text projection = cl.text ∨
        projects cl.projectionText projection = false ∧
          ∃ after, Added item (cl.projectionText.head? == some '*')
              (lexemes (cl.projectionText ++ trail)) after ∧
                lexemes (withProjection cl.text projection) =
              Lexeme.word withLetters :: (distinctLexemes cl.body ++ after)) := by
  obtain ⟨word, rest, ht, _, hw, hr, hcap⟩ := h
  have hwt : IsWith word := by
    rwa [hkw] at hcap
  have hb : cl.body = trim rest := by
    have hlen : cl.keyword.word.length = word.length := by
      rw [hkw, length_of_upperChars hwt]
      rfl
    rw [Clause.body, ht, hlen, drop_left]
  obtain ⟨trail, htr, hold, hnew⟩ := lexemes_withProjection hwt hw hr projection
  rw [Clause.projectionText, hb, ht]
  refine ⟨word, trail, hwt, htr, hold, ?_⟩
  cases hfo : projects (withoutDistinct (trim rest)) projection with
  | true =>
    obtain ⟨_, _, _, _, _, _, heq⟩ := withProjection_append hwt rest projection
    exact .inl ⟨rfl, by rw [heq, if_pos hfo]⟩
  | false => exact .inr ⟨rfl, _, added_addToProjections hpr hn htr _, hnew hfo⟩

/-! ## What is kept -/

/-- A projection is added to a clause once, as an item of its own, and all else that is read
stays. -/
structure KeepsProjections (clause result : Chars) (item : List Chars) : Prop where
  /-- The clause still projects. -/
  keyword : (words result).head?.map (fun word => Text.upperChars word.text) = some Text.withLetters
  /-- The other words come again, in their order. -/
  words : (words clause).tail.map (·.text) <+ (words result).tail.map (·.text)
  isDistinct : (projectionsOf result).isDistinct = (projectionsOf clause).isDistinct
  /-- At most the item is put in between the items. -/
  items : (projectionsOf result).items = (projectionsOf clause).items ∨
    ∃ front back, (projectionsOf clause).items = front ++ back ∧ (projectionsOf result).items =
      front ++ item :: back
  mem : item ∈ (projectionsOf result).items
  once : (projectionsOf clause).items.count item ≤ 1 → (projectionsOf result).items.count item = 1
  /-- A star stays in front of all items. -/
  star : (projectionsOf clause).items.head? = some [['*']] →
    (projectionsOf result).items.head? = some [['*']]
  tail : (projectionsOf result).tail = (projectionsOf clause).tail

lemma words_of_lexemes {word : Chars} (h : lexemes text = Lexeme.word word :: list) :
    (words text).map (·.text) = word :: (list.filter (·.isWord)).map (·.text) := by
  have hws : (words text).map (·.text) = ((lexemes text).filter (·.isWord)).map (·.text) := by
    simpa [readings, Function.comp_def] using congrArg (map Prod.fst) (readings_eq text)
  rw [hws, h, filter_cons_of_pos rfl]
  rfl

lemma capitals_of_lexemes {word : Chars} (h : lexemes text = Lexeme.word word :: list)
    (hw : IsWith word) :
    (words text).head?.map (fun word => upperChars word.text) = some withLetters := by
  have hws := congrArg head? (words_of_lexemes h)
  rw [head?_map, head?_cons] at hws
  obtain ⟨fst, h1, rfl⟩ := Option.map_eq_some_iff.mp hws
  rw [h1, Option.map_some]
  exact congrArg some hw

lemma keepsProjections_self {word : Chars} (h : lexemes text = Lexeme.word word :: list)
    (hw : IsWith word) : KeepsProjections text text item ↔ item ∈ (projectionsOf text).items := by
  refine ⟨fun hke => hke.mem, fun hm =>
    ⟨capitals_of_lexemes h hw, Sublist.refl _, rfl, .inl rfl, hm, ?_, id, rfl⟩⟩
  intro hco
  have hpos := count_pos_iff.mpr hm
  omega

lemma keepsProjections_added_iff {res word : Chars} {after : List Lexeme}
    (hi : ∀ word ∈ item, IsVariable word) (hne : item ≠ []) (htr : IsBlanks trail)
    (hold : lexemes text = Lexeme.word word :: lexemes (projs ++ trail))
    (hadd : Added item ((withoutDistinct projs).head? == some '*')
      (lexemes (withoutDistinct projs ++ trail)) after)
    (hnew : lexemes res = Lexeme.word withLetters :: (distinctLexemes projs ++ after)) :
    KeepsProjections text res item ↔ (projectionsOf text).items.count item ≠ 1 ∧
      seesDistinct projs = (projectionsOf text).isDistinct ∧
      ((withoutDistinct projs).head? = some '*' ↔
        (projectionsOf text).items.head? = some [['*']]) := by
  have hres := projectionsOf_of_lexemes hnew fun _ => hadd.not_distinct hi hne
  -- once the text and the lexemes agree on the first word, the lists of items can be compared
  have har : seesDistinct projs = (projectionsOf text).isDistinct → lexemes (projs ++ trail) =
        distinctLexemes projs ++ lexemes (withoutDistinct projs ++ trail) ∧
      projectionsOf text = ⟨seesDistinct projs,
        itemsOf (splitTail (lexemes (withoutDistinct projs ++ trail))).1,
        (splitTail (lexemes (withoutDistinct projs ++ trail))).2⟩ := by
    intro hag
    rw [projectionsOf, hold, tail_cons] at hag
    have hl := lexemes_of_seesDistinct htr projs hag
    refine ⟨hl, projectionsOf_of_lexemes (hl ▸ hold) fun hds => ?_⟩
    rw [hds] at hag
    have hwh : withoutDistinct projs = projs := by simp [withoutDistinct, hds]
    rw [hwh]
    exact hag.symm
  have hcn : ∀ front back, (front ++ item :: back).count item = (front ++ back).count item + 1 := by
    intro front back
    simp only [count_append, count_cons_self]
    omega
  constructor
  · intro hke
    have hag : seesDistinct projs = (projectionsOf text).isDistinct := by
      rw [← hke.isDistinct, hres]
    obtain ⟨_, ht⟩ := har hag
    obtain ⟨_, _, _, his, _, hon, hst, _⟩ := hke
    simp only [ht, hres] at his hon hst ⊢
    have hsr := hadd.star_iff hi hne his hst
    obtain ⟨front, back, hb, ha, _⟩ := hadd.items hi hne hsr
    refine ⟨fun hco => ?_, trivial, by simpa using hsr⟩
    have hdo := hon (Nat.le_of_eq hco)
    rw [ha, hcn, ← hb] at hdo
    omega
  · rintro ⟨hco, hag, hsr⟩
    obtain ⟨hl, ht⟩ := har hag
    simp only [ht] at hco hsr
    obtain ⟨front, back, hb, ha, hst⟩ := hadd.items hi hne (by simpa using hsr)
    have hwt : IsWith withLetters := by
      unfold IsWith
      decide
    have hws : (words text).tail.map (·.text) <+ (words res).tail.map (·.text) := by
      rw [map_tail, map_tail, words_of_lexemes hold, words_of_lexemes hnew, tail_cons,
        tail_cons, hl]
      exact ((hadd.sublist.append_left _).filter _).map _
    refine ⟨capitals_of_lexemes hnew hwt, hws, ?_, ?_, ?_, ?_, ?_, ?_⟩
    all_goals simp only [ht, hres]
    · exact .inr ⟨front, back, hb, ha⟩
    · rw [ha]
      simp
    · intro hms
      rw [ha, hcn, ← hb]
      omega
    · exact hst
    · exact hadd.tail hi

/-- Adding a projection succeeds, and keeps all else. -/
def AddsOnce (clause projection : Chars) (item : List Chars) : Prop :=
  ∃ result, addProjection clause projection = .ok result ∧ KeepsProjections clause result item

/-- A projection of a variable is added to a clause once and with all else kept, exactly if the
clause is not cut short and the text does not mislead: a projection that is found between commas is
an item, and else the item is not there, and the word that removes repeated rows and a star in front
are seen. -/
theorem keepsProjections_iff {clause : Clause} (statement : List Char)
    (hclause : clause ∈ (split statement).clauses) (hkeyword : clause.keyword = .projecting)
    (hname : IsVariable name) (hprojection : IsProjection name projection item) :
    AddsOnce clause.text projection item ↔ isCutShort clause.body = false ∧
      if projects clause.projectionText projection then item ∈ (projectionsOf clause.text).items
      else (projectionsOf clause.text).items.count item ≠ 1 ∧
        seesDistinct clause.body = (projectionsOf clause.text).isDistinct ∧
        (clause.projectionText.head? = some '*' ↔
          (projectionsOf clause.text).items.head? = some [['*']]) := by
  have hbody : trim (clause.text.drop 4) = clause.body := by
    rw [Clause.body, hkeyword]
    rfl
  rw [AddsOnce, addProjection_eq, hbody]
  cases isCutShort clause.body with
  | true => simp
  | false =>
    simp only [Bool.false_eq_true, if_false, Except.ok.injEq, exists_eq_left', true_and]
    obtain ⟨word, trailing, hwith, htrailing, hold,
      ⟨hfound, hsame⟩ | ⟨hmissing, after, hadded, hnew⟩⟩ :=
      (isSplit_of_mem hclause).withProjection_cases hkeyword hname hprojection
    · rw [hsame, if_pos hfound]
      exact keepsProjections_self hold hwith
    · rw [if_neg (by simp [hmissing])]
      exact keepsProjections_added_iff (hprojection.isVariable hname) hprojection.ne_nil htrailing
        hold hadded hnew

def orderingClause : Clause := ⟨.projecting, 10, "WITH DISTINCT f(a, b) AS y ORDER BY y ".toList⟩

def filteringClause : Clause := ⟨.projecting, 48, "WITH y, BInput WHERE y > 1 ".toList⟩

def cutClause : Clause := ⟨.projecting, 75, "WITH DI\ufb06INCT".toList⟩

def threeProjections : Chars :=
  "MATCH (a) WITH DISTINCT f(a, b) AS y ORDER BY y WITH y, BInput WHERE y > 1 WITH DI\ufb06INCT".toList

/-- The clause that orders gets the variable in front of its item and after the word that removes
repeated rows. In the one that filters the last item is not found before the filter, and comes
twice. The last one is cut short. -/
theorem keepsProjections_threeProjections :
    orderingClause ∈ (split threeProjections).clauses ∧ filteringClause ∈ (split threeProjections).clauses ∧
      cutClause ∈ (split threeProjections).clauses ∧ IsVariable "BInput".toList ∧
      AddsOnce orderingClause.text "BInput".toList ["BInput".toList] ∧
      ¬ AddsOnce filteringClause.text "BInput".toList ["BInput".toList] ∧
      ¬ AddsOnce cutClause.text "BInput".toList ["BInput".toList] := by
  have hname : IsVariable "BInput".toList := ⟨by decide, all_eq_true.mp (by decide), by decide⟩
  have hordering : orderingClause ∈ (split threeProjections).clauses := by decide +kernel
  have hfiltering : filteringClause ∈ (split threeProjections).clauses := by decide +kernel
  have hcut : cutClause ∈ (split threeProjections).clauses := by decide +kernel
  refine ⟨hordering, hfiltering, hcut, hname, ?_, fun hkeeps => ?_, fun hkeeps => ?_⟩
  · refine (keepsProjections_iff threeProjections hordering rfl hname .plain).mpr ?_
    decide +kernel
  · have hexact := (keepsProjections_iff threeProjections hfiltering rfl hname .plain).mp hkeeps
    revert hexact
    decide +kernel
  · have hexact := (keepsProjections_iff threeProjections hcut rfl hname .plain).mp hkeeps
    revert hexact
    decide +kernel

end GraphApi.Cypher
