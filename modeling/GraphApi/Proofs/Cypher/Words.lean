import GraphApi.Proofs.Cypher.Lexeme
import Mathlib.Data.List.Sort

/-!
# Words by their characters

The words of a statement are the longest runs of name characters in code that are no property keys
or parameters. What is code is told character by character. Main statement: `words_read_exactly`.
-/

namespace GraphApi.Cypher

open List Piece Scan

variable {s t rest pre text after : Chars} {c quote : Char} {mode : Mode}
  {depth : Nat} {word : Word} {mark : Option Nat} {piece : Piece}

/-! ## Characters of names in code -/

def Mode.isCode : Mode → Bool
  | .code | .slash => true
  | _ => false

/-- Reads a character. A step fails only at a closing bracket without a partner, which is ignored
here. -/
def Scan.advance (scan : Scan) (c : Char) : Scan := (scan.step c).getD ⟨.code, 0⟩

def scanAfter (s : Chars) : Scan := s.foldl advance ⟨.code, 0⟩

/-- For each character of a name in code the number of open brackets before it, and nothing for the
others. -/
def Scan.marks (scan : Scan) : Chars → List (Option Nat)
  | [] => []
  | c :: rest => (if scan.mode.isCode && isNameChar c then some scan.depth
    else none) :: (scan.advance c).marks rest

def markAt (s : Chars) (i : Nat) : Option Nat := ((Scan.mk .code 0).marks s)[i]?.join

def Word.stop (word : Word) : Nat := word.offset + word.text.length

/-- A longest run of name characters in code, with the number of open brackets before it. It does
not stand after a dot or a dollar sign. -/
structure IsWord (s : Chars) (word : Word) : Prop where
  ne_nil : word.text ≠ []
  stands : (s.drop word.offset).take word.text.length = word.text
  inside : ∀ i, word.offset ≤ i → i < word.stop → markAt s i = some word.depth
  left : ∀ i, i + 1 = word.offset → markAt s i = none
  right : markAt s word.stop = none
  free : ∀ c, (s.take word.offset).getLast? = some c → c ≠ '.' ∧ c ≠ '$'

@[simp] lemma Scan.length_marks (scan : Scan) (s : Chars) : (scan.marks s).length = s.length := by
  induction s generalizing scan with
  | nil => rfl
  | cons c rest ih => simp [marks, ih]

lemma Scan.marks_append (scan : Scan) (fst snd : Chars) :
    scan.marks (fst ++ snd) = scan.marks fst ++ (fst.foldl advance scan).marks snd := by
  induction fst generalizing scan with
  | nil => rfl
  | cons c rest ih => simp [marks, ih]

lemma Scan.foldl_advance {scan last : Scan} (h : scan.run s = some last) :
    s.foldl advance scan = last := by
  induction s generalizing scan with
  | nil => exact Option.some_inj.mp h
  | cons c rest ih =>
    obtain ⟨next, hst, hr⟩ := run_cons_eq_some h
    rw [foldl_cons, advance, hst]
    exact ih hr

/-! ## Marks of pieces -/

lemma marks_splitQuoted (s : Chars) (depth : Nat) :
    (mk (.quoted quote) depth).marks (splitQuoted quote s).1 =
      replicate (splitQuoted quote s).1.length none := by
  fun_induction splitQuoted quote s with
  | case1 => rfl
  | case2 c => rfl
  | case3 c d rest hes body after hsp ih =>
    rw [hsp] at ih
    simpa [marks, Mode.isCode, advance, step, hes, replicate_succ] using ih
  | case4 d rest hes => rfl
  | case5 c d rest hes hc body after hsp ih =>
    rw [hsp] at ih
    simpa [marks, Mode.isCode, advance, step, hes, hc, replicate_succ] using ih

lemma marks_splitLine (s : Chars) (depth : Nat) :
    (mk .line depth).marks (splitLine s).1 = replicate (splitLine s).1.length none := by
  fun_induction splitLine s with
  | case1 => rfl
  | case2 rest => rfl
  | case3 c rest hc body after hsp ih =>
    rw [hsp] at ih
    simpa [marks, Mode.isCode, advance, step, hc, replicate_succ] using ih

lemma marks_star (hsl : s.head? ≠ some '/') (depth : Nat) :
    (mk .star depth).marks s = (mk .block depth).marks s := by
  cases s with
  | nil => rfl
  | cons c rest =>
    have hc : c ≠ '/' := by simpa using hsl
    by_cases hst : c = '*' <;> simp [marks, Mode.isCode, advance, step, hc, hst]

lemma marks_splitBlock (s : Chars) (depth : Nat) :
    (mk .block depth).marks (splitBlock s).1 = replicate (splitBlock s).1.length none := by
  fun_induction splitBlock s with
  | case1 => rfl
  | case2 rest => rfl
  | case3 c rest hend body after hsp ih =>
    rw [hsp] at ih
    by_cases hc : c = '*'
    · subst hc
      have hhe := head?_ne_of_splitBlock hend hsp rfl
      simpa [marks, Mode.isCode, advance, step, replicate_succ, marks_star hhe] using ih
    · simpa [marks, Mode.isCode, advance, step, hc, replicate_succ] using ih

lemma marks_letters (h : IsLetters s) (depth : Nat) :
    (mk .code depth).marks s = replicate s.length (some depth) := by
  induction s with
  | nil => rfl
  | cons c rest ih =>
    obtain ⟨hc, hr⟩ := forall_mem_cons.mp h
    have hst := stepCode_plain (isPlain_of_isNameChar hc) depth
    simp [marks, Mode.isCode, advance, step, hst, hc, replicate_succ, ih hr]

lemma Mode.Ready.isCode (h : mode.Ready (c :: rest)) : mode.isCode := by
  rcases h with rfl | ⟨rfl, _⟩ | ⟨_, hnil⟩
  · rfl
  · rfl
  · cases hnil

lemma isNameChar_eq_false (h : isPlain c = false) : isNameChar c = false := by
  by_contra hn
  rw [isPlain_of_isNameChar (by simpa using hn)] at h
  cases h

lemma Piece.marks_next (hre : mode.Ready (c :: rest)) (depth : Nat) :
    (Scan.mk mode depth).marks (next c rest).1.text =
    replicate (next c rest).1.text.length (if (next c rest).1.kind = .name then some depth
      else none) := by
  have hadv : (Scan.mk mode depth).advance c = (stepCode depth c).getD ⟨.code, 0⟩ := by
    rw [advance, hre.step]
  rcases char_cases c with hq | rfl | hop | hclo | hp
  · have hn := isNameChar_eq_false (by simp [isPlain, hq] : isPlain c = false)
    rw [next_quoted hq]
    simp [marks, hn, hadv, stepCode_quote hq, marks_splitQuoted, replicate_succ]
  · have hn : isNameChar '/' = false := by decide
    rw [stepCode_slash] at hadv
    rcases slash_cases rest with ⟨s, rfl⟩ | ⟨s, rfl⟩ | hne
    · have hl : (Scan.mk .slash depth).advance '/' = ⟨.line, depth⟩ := rfl
      rw [next_line]
      simp [marks, hn, hadv, hl, marks_splitLine, replicate_succ]
    · have hst : isNameChar '*' = false := by decide
      have hb : (Scan.mk .slash depth).advance '*' = ⟨.block, depth⟩ := rfl
      rw [next_block]
      simp [marks, hn, hst, hadv, hb, marks_splitBlock, replicate_succ]
    · rw [next_slash hne]
      simp [marks, hn]
  · have hn := isNameChar_eq_false (by simp [isPlain, hop] : isPlain c = false)
    rw [next_opening hop]
    simp [marks, hn]
  · have hn := isNameChar_eq_false (by simp [isPlain, hclo] : isPlain c = false)
    rw [next_closing hclo]
    simp [marks, hn]
  · rw [next_plain hp]
    split
    next hn =>
      have hle : IsLetters (rest.takeWhile isNameChar) := all_eq_true.mp all_takeWhile
      simp [marks, hre.isCode, hn, hadv, stepCode_plain hp, marks_letters hle, replicate_succ]
    next hn => simp [marks, hn]

lemma Piece.isClosing_of_next (h : (next c rest).1.kind = .closing) : isClosing c := by
  unfold next at h
  split at h
  · cases h
  · split at h
    · split at h <;> cases h
    · grind

/-- After a piece the brackets are those that the piece leaves open, and the rest can be read as
code. -/
lemma Piece.foldl_next (hre : mode.Ready (c :: rest)) (depth : Nat) : ∃ last : Mode,
    (next c rest).1.text.foldl advance ⟨mode, depth⟩ = ⟨last, (next c rest).1.depthAfter depth⟩ ∧
      ((next c rest).2 ≠ [] → last.Ready (next c rest).2) := by
  cases outcome_next hre depth with
  | read _ _ hready hrun => exact ⟨_, foldl_advance hrun, fun _ => hready⟩
  | unmatched _ hbr hrun =>
    have hclo := isClosing_of_next hbr.1
    obtain rfl : depth = 0 := hbr.2
    rw [next_closing hclo]
    refine ⟨.code, ?_, fun _ => .inl rfl⟩
    rw [foldl_cons, foldl_nil, advance, hre.step, stepCode_closing hclo]
    rfl
  | @unclosed last hcl _ ha _ hrun =>
    have hdp : (next c rest).1.depthAfter depth = depth := by
      unfold isClosed at hcl
      unfold depthAfter
      split at hcl <;> simp_all
    exact ⟨last, by rw [foldl_advance hrun, hdp], fun hne => absurd ha hne⟩

lemma depthOver_pieces (hre : mode.Ready s) (depth : Nat) :
    depthOver depth (pieces s) = (s.foldl advance ⟨mode, depth⟩).depth := by
  fun_induction pieces s generalizing mode depth with
  | case1 => rfl
  | case2 c rest ih =>
    obtain ⟨last, hf, hr⟩ := foldl_next hre depth
    rw [← next_append c rest, foldl_append, hf, depthOver, foldl_cons, ← depthOver]
    by_cases hnil : (next c rest).2 = []
    · simp [hnil, pieces, depthOver]
    · exact ih (hr hnil) _

/-! ## Words as runs of marks -/

lemma markAt_piece {i : Nat} (hms : (scanAfter pre).marks text = replicate text.length mark)
    (hle : pre.length ≤ i)
    (hlt : i < pre.length + text.length) : markAt (pre ++ (text ++ after)) i = mark := by
  rw [scanAfter] at hms
  rw [markAt, marks_append, marks_append, hms, getElem?_append_right (by simpa),
    getElem?_append_left (by simp; omega), length_marks, getElem?_replicate_of_lt (by omega)]
  rfl

lemma markAt_of_endsName (h : EndsName after) (pre : Chars) :
    markAt (pre ++ after) pre.length = none := by
  rw [markAt, marks_append, getElem?_append_right (by simp), length_marks, Nat.sub_self]
  cases after with
  | nil => rfl
  | cons d os => simp [marks, h d rfl]

lemma IsWord.offset_lt (h : IsWord s word) : word.offset < word.stop :=
  Nat.lt_add_of_pos_right (length_pos_iff.mpr h.ne_nil)

/-- A word that begins in a text of which all characters are marked alike is this text. -/
lemma IsWord.eq_of_lt (h : IsWord (pre ++ (text ++ after)) word)
    (hms : ∀ i, pre.length ≤ i → i < pre.length + text.length →
      markAt (pre ++ (text ++ after)) i = mark)
    (hend : mark ≠ none → markAt (pre ++ (text ++ after)) (pre.length + text.length) = none)
    (hle : pre.length ≤ word.offset) (hlt : word.offset < pre.length + text.length) :
    mark = some word.depth ∧ word.offset = pre.length ∧ word.text = text := by
  have hm : mark = some word.depth :=
    (hms _ hle hlt).symm.trans (h.inside _ (Nat.le_refl _) h.offset_lt)
  have hoff : word.offset = pre.length := by
    by_contra hne
    have hl := h.left (word.offset - 1) (by omega)
    rw [hms _ (by omega) (by omega), hm] at hl
    cases hl
  have hst : word.stop = pre.length + text.length := by
    rcases Nat.lt_trichotomy word.stop (pre.length + text.length) with hlt | heq | hgt
    · have hr := h.right
      rw [hms _ (by have := h.offset_lt; omega) hlt, hm] at hr
      cases hr
    · exact heq
    · have hi := h.inside _ (by omega) hgt
      rw [hend (by simp [hm])] at hi
      cases hi
  have hlen : word.text.length = text.length := by
    rw [Word.stop, hoff] at hst
    exact Nat.add_left_cancel hst
  have ht := h.stands
  rw [hoff, hlen, drop_left, take_left] at ht
  exact ⟨hm, hoff, ht.symm⟩

/-- A piece between two texts is marked throughout as a name with some brackets around it, or not at
all, and a name ends with it. -/
structure Piece.IsMarked (pre : Chars) (piece : Piece) (after : Chars) (depth : Nat) : Prop where
  marks : ∀ i, pre.length ≤ i → i < pre.length + piece.text.length →
    markAt (pre ++ (piece.text ++ after)) i = if piece.kind = .name then some depth else none
  ends : piece.kind = .name → markAt (pre ++ (piece.text ++ after))
    (pre.length + piece.text.length) = none

lemma Piece.isMarked_next (hsc : scanAfter pre = ⟨mode, depth⟩) (hre : mode.Ready (c :: rest)) :
    (next c rest).1.IsMarked pre (next c rest).2 depth := by
  refine ⟨fun i => markAt_piece (by rw [hsc]; exact marks_next hre depth), fun hk => ?_⟩
  have hst : EndsName (next c rest).2 := by
    rintro d hd
    rcases next_endsBefore c rest with hnil | ⟨_, hgo⟩
    · rw [hnil] at hd
      cases hd
    · simpa [goesOn, hk] using hgo d hd
  simpa using markAt_of_endsName hst (pre ++ (next c rest).1.text)

lemma Piece.IsMarked.isWord_iff (h : piece.IsMarked pre after depth) (hne : piece.text ≠ [])
    (hst : markAt (pre ++ (piece.text ++ after)) pre.length ≠ none →
      ∀ i, i + 1 = pre.length → markAt (pre ++ (piece.text ++ after)) i = none) :
    pre.length ≤ word.offset ∧ IsWord (pre ++ (piece.text ++ after)) word ↔
      (piece.word? pre.getLast?).map (Word.mk pre.length · depth) = some word ∨
        pre.length + piece.text.length ≤ word.offset ∧
        IsWord (pre ++ (piece.text ++ after)) word := by
  have hpos := length_pos_iff.mpr hne
  constructor
  · rintro ⟨hle, hw⟩
    rcases Nat.lt_or_ge word.offset (pre.length + piece.text.length) with hlt | hge
    · obtain ⟨hm, hoff, ht⟩ := hw.eq_of_lt h.marks (fun hm => h.ends (by simpa using hm)) hle hlt
      obtain ⟨hk, hdp⟩ : piece.kind = .name ∧ depth = word.depth := by simpa using hm
      have hac : isAccess pre.getLast? = false := by
        cases hl : pre.getLast? with
        | none => rfl
        | some c => simpa [isAccess] using hw.free c (by rw [hoff, take_left, hl])
      refine .inl ?_
      rw [word?, hk, hac, hdp, ← hoff, ← ht]
      rfl
    · exact .inr ⟨hge, hw⟩
  · rintro (h1 | ⟨hge, hw⟩)
    · obtain ⟨⟨hk, hac⟩, rfl⟩ : (piece.kind = .name ∧ isAccess pre.getLast? = false) ∧
          ⟨pre.length, piece.text, depth⟩ = word := by simpa [word?] using h1
      have hms := h.marks
      simp only [hk, if_true] at hms
      refine ⟨Nat.le_refl _, hne, by simp, hms, hst (by simp [hms _ (Nat.le_refl _) (by omega)]),
        h.ends hk, fun c hc => ?_⟩
      rw [take_left] at hc
      simpa [isAccess, hc] using hac
    · exact ⟨by omega, hw⟩

lemma mem_wordsFrom_iff (hre : rest ≠ [] → (scanAfter pre).mode.Ready rest)
    (hst : markAt (pre ++ rest) pre.length ≠ none → ∀ i, i + 1 = pre.length →
      markAt (pre ++ rest) i = none) :
    word ∈ wordsFrom pre.length (scanAfter pre).depth pre.getLast? (pieces rest) ↔
      pre.length ≤ word.offset ∧ IsWord (pre ++ rest) word := by
  fun_induction pieces rest generalizing pre with
  | case1 =>
    refine iff_of_false not_mem_nil ?_
    rintro ⟨hle, hw⟩
    have hi := hw.inside _ (Nat.le_refl _) hw.offset_lt
    rw [append_nil, markAt, getElem?_eq_none (by simpa)] at hi
    cases hi
  | case2 c rest ih =>
    replace hre := hre (by simp)
    generalize hsc : scanAfter pre = scan at hre ⊢
    obtain ⟨mode, depth⟩ := scan
    have hmk := isMarked_next hsc hre
    obtain ⟨last, hf, hla⟩ := foldl_next hre depth
    have hne : (next c rest).1.text ≠ [] :=
      text_ne_nil_of_mem_pieces (by rw [pieces_cons]; exact mem_cons_self)
    rw [← next_append c rest] at hst ⊢
    generalize (next c rest).1 = piece at *
    have hnx : scanAfter (pre ++ piece.text) = ⟨last, piece.depthAfter depth⟩ := by
      rw [scanAfter, foldl_append, ← scanAfter, hsc, hf]
    rw [wordsFrom_cons, mem_append, hmk.isWord_iff hne hst, Option.mem_toList]
    refine or_congr Iff.rfl ?_
    have hr := @ih (pre ++ piece.text) (by rwa [hnx]) fun hm i hi => ?_
    · have hl : (pre ++ piece.text).getLast? = piece.text.getLast? := by
        rw [getLast?_append, getLast?_eq_some_getLast hne, Option.some_or]
      rwa [length_append, hl, append_assoc, hnx] at hr
    · -- a name ends with its piece, so the next piece does not go on with one
      have hpos := length_pos_iff.mpr hne
      rw [append_assoc, length_append] at hm
      rw [length_append] at hi
      rw [append_assoc, hmk.marks i (by omega) (by omega)]
      split
      next hk => exact absurd (hmk.ends hk) hm
      · rfl

lemma pairwise_wordsFrom {ps : List Piece} {before : Option Char}
    (hne : ∀ piece ∈ ps, piece.text ≠ []) (off depth : Nat) :
    (∀ word ∈ wordsFrom off depth before ps, off ≤ word.offset) ∧
      (wordsFrom off depth before ps).Pairwise fun fst snd =>
      fst.offset < snd.offset ∧ fst.stop ≤ snd.offset := by
  induction ps generalizing off depth before with
  | nil => simp [wordsFrom]
  | cons piece rest ih =>
    obtain ⟨hp, hr⟩ := forall_mem_cons.mp hne
    obtain ⟨hle, hri⟩ := @ih piece.text.getLast? hr (off + piece.text.length)
      (piece.depthAfter depth)
    have hpos := length_pos_iff.mpr hp
    rw [wordsFrom]
    split
    · refine ⟨forall_mem_cons.mpr ⟨Nat.le_refl _, fun word hw => ?_⟩,
        pairwise_cons.mpr ⟨fun word hw => ?_, hri⟩⟩
      · exact Nat.le_of_add_right_le (hle word hw)
      · exact ⟨Nat.lt_of_lt_of_le (Nat.lt_add_of_pos_right hpos) (hle word hw), hle word hw⟩
    · exact ⟨fun word hw => Nat.le_of_add_right_le (hle word hw), hri⟩

lemma mem_words_iff : word ∈ words s ↔ IsWord s word := by
  have hiff := @mem_wordsFrom_iff s [] word (fun _ => .inl rfl) nofun
  rw [words]
  simpa [scanAfter] using hiff

lemma pairwise_words (s : Chars) : (words s).Pairwise fun fst snd => fst.offset < snd.offset ∧
    fst.stop ≤ snd.offset :=
  (pairwise_wordsFrom (fun _ => text_ne_nil_of_mem_pieces) 0 0).2

/-! ## Blanks at the end -/

lemma Scan.depth_advance (h : isPlain c) (scan : Scan) : (scan.advance c).depth = scan.depth := by
  obtain ⟨mode, depth⟩ := scan
  have hst := stepCode_plain h depth
  cases mode <;> simp only [advance, step, hst] <;> repeat' split
  all_goals rfl

lemma markAt_append (h : ∀ c ∈ after, isNameChar c = false) (s : Chars) (i : Nat) :
    markAt (s ++ after) i = markAt s i := by
  have hms (scan : Scan) : scan.marks after = replicate after.length none := by
    induction after generalizing scan with
    | nil => rfl
    | cons c rest ih =>
      obtain ⟨hc, hr⟩ := forall_mem_cons.mp h
      simp [marks, hc, ih hr, replicate_succ]
  rw [markAt, markAt, marks_append, hms]
  rcases Nat.lt_or_ge i s.length with hlt | hge
  · rw [getElem?_append_left (by simpa)]
  · rw [getElem?_append_right (by simpa), getElem?_eq_none (by simpa : _ ≤ i), getElem?_replicate]
    split <;> rfl

lemma IsWord.stop_le (h : IsWord t word) (hm : ∀ i, markAt t i = markAt s i) :
    word.stop ≤ s.length := by
  by_contra hgt
  have hi := h.inside (word.stop - 1) (by have := h.offset_lt; omega) (by omega)
  rw [hm, markAt, getElem?_eq_none (by simp; omega)] at hi
  cases hi

lemma isWord_append (h : ∀ c ∈ after, isNameChar c = false) :
    IsWord (s ++ after) word ↔ IsWord s word := by
  have hm := markAt_append h s
  have hsl (hle : word.stop ≤ s.length) : (s ++ after).take word.offset = s.take word.offset ∧
      ((s ++ after).drop word.offset).take word.text.length =
        (s.drop word.offset).take word.text.length := by
    rw [Word.stop] at hle
    rw [take_append_of_le_length (by omega), drop_append_of_le_length (by omega),
      take_append_of_le_length (by rw [length_drop]; omega)]
    exact ⟨rfl, rfl⟩
  constructor
  · intro hw
    obtain ⟨hta, hdr⟩ := hsl (hw.stop_le hm)
    obtain ⟨hne, hst, hin, hl, hr, hf⟩ := hw
    simp only [hm, hta, hdr] at *
    exact ⟨hne, hst, hin, hl, hr, hf⟩
  · intro hw
    obtain ⟨hta, hdr⟩ := hsl (hw.stop_le fun _ => rfl)
    obtain ⟨hne, hst, hin, hl, hr, hf⟩ := hw
    constructor <;> simpa only [hm, hta, hdr]

lemma words_append_blanks {bs : Chars} (hbl : IsBlanks bs) (s : Chars) :
    words (s ++ bs) = words s ∧ depthOver 0 (pieces (s ++ bs)) = depthOver 0 (pieces s) := by
  constructor
  · have hiff (word : Word) : word ∈ words (s ++ bs) ↔ word ∈ words s := by
      rw [mem_words_iff, mem_words_iff, isWord_append fun c hc => (sort_of_isBlank (hbl c hc)).2.1]
    have hlt (t : Chars) := (pairwise_words t).imp And.left
    exact @Pairwise.eq_of_mem_iff _ _ ⟨fun _ _ h1 h2 => absurd h1 (Nat.lt_asymm h2)⟩
      ⟨fun _ => Nat.lt_irrefl _⟩ _ _ (hlt _) (hlt _) hiff
  · rw [depthOver_pieces (.inl rfl), depthOver_pieces (.inl rfl), foldl_append]
    generalize s.foldl advance ⟨.code, 0⟩ = scan
    induction bs generalizing scan with
    | nil => rfl
    | cons b rest ih =>
      obtain ⟨hb, hr⟩ := forall_mem_cons.mp hbl
      rw [foldl_cons, ih hr, depth_advance (isPlain_of_isBlank hb).1]

/-- The words of a statement are the longest runs of name characters in code, each with the number
of open brackets before it, that do not stand after a dot or a dollar sign. They come one after the
other. -/
theorem words_read_exactly (s : List Char) : (∀ word, word ∈ words s ↔ IsWord s word) ∧
      (words s).Pairwise fun first second => first.offset < second.offset ∧ first.stop ≤ second.offset :=
  ⟨fun _ => mem_words_iff, pairwise_words s⟩

end GraphApi.Cypher
