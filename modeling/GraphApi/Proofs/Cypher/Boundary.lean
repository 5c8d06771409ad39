import GraphApi.Proofs.Cypher.Scan

/-!
# Where pieces end

A piece ends before a text if it is complete and the text does not go on with it. Then it is the
same piece before any such text, so the first pieces of a text stay if what follows them is replaced
(`pieces_before`).
-/

namespace GraphApi.Cypher

open List Piece

variable {s rest more other : Chars} {c : Char} {piece : Piece} {ps qs : List Piece}

/-! ## Characters of one sort -/

abbrev IsBlanks (text : Chars) : Prop := ∀ c ∈ text, Text.isBlank c

abbrev IsLetters (text : Chars) : Prop := ∀ c ∈ text, isNameChar c

/-- A name before the text does not go on in it. -/
abbrev EndsName (text : Chars) : Prop := ∀ c, text.head? = some c → isNameChar c = false

lemma endsName_cons (h : isNameChar c = false) (rest : Chars) : EndsName (c :: rest) := by
  rintro d hd
  cases hd
  exact h

/-! ## Quoted texts and comments by themselves -/

lemma splitQuoted_body {quote : Char} (hq : isQuote quote)
    (h : more = [] ∨ closesQuote quote (splitQuoted quote s).1) :
    splitQuoted quote ((splitQuoted quote s).1 ++ more) = ((splitQuoted quote s).1, more) := by
  have hne := ne_backslash_of_isQuote hq
  fun_induction splitQuoted quote s with
  | case1 =>
    obtain rfl : more = [] := by simpa [closesQuote] using h
    rfl
  | case2 c =>
    rcases h with rfl | h
    · rfl
    · have hc : c = quote := by
        by_cases hes : c = '\\' ∧ quote ≠ '\x60'
        · simp [closesQuote, hes] at h
        · simpa [closesQuote, hes] using h
      subst hc
      cases more <;> simp [splitQuoted, hne]
  | case3 c d rest hes body after hsp ih =>
    rw [hsp] at ih
    have hb := ih (by simpa [closesQuote, hes] using h)
    simp [splitQuoted, hes, hb]
  | case4 d rest hes => cases more <;> simp [splitQuoted, hne]
  | case5 c d rest hes hc body after hsp ih =>
    rw [hsp] at ih
    simp only [closesQuote_cons hes, hc, decide_false, Bool.false_or] at h
    have hb := ih h
    cases body with
    | nil =>
      obtain rfl : more = [] := by simpa [closesQuote] using h
      rfl
    | cons e os =>
      rw [cons_append] at hb
      simp [splitQuoted, hes, hc, hb]

lemma splitLine_body (h : more = [] ∨ '\n' ∈ (splitLine s).1) :
    splitLine ((splitLine s).1 ++ more) = ((splitLine s).1, more) := by
  fun_induction splitLine s with
  | case1 =>
    obtain rfl : more = [] := by simpa using h
    rfl
  | case2 rest => simp [splitLine]
  | case3 c rest hc body after hsp ih =>
    rw [hsp] at ih
    have hb := ih (by simpa [Ne.symm hc] using h)
    simp [splitLine, hc, hb]

lemma mem_splitLine_of_ne_nil (h : (splitLine s).2 ≠ []) : '\n' ∈ (splitLine s).1 := by
  fun_induction splitLine s with
  | case1 => simp at h
  | case2 rest => simp
  | case3 c rest hc body after hsp ih =>
    rw [hsp] at ih
    exact mem_cons_of_mem _ (ih h)

lemma splitBlock_body (h : more = [] ∨ closesBlock (splitBlock s).1) :
    splitBlock ((splitBlock s).1 ++ more) = ((splitBlock s).1, more) := by
  fun_induction splitBlock s with
  | case1 =>
    obtain rfl : more = [] := by simpa [closesBlock] using h
    rfl
  | case2 rest => simp [splitBlock]
  | case3 c rest hend body after hsp ih =>
    rw [hsp] at ih
    have hhe := head?_ne_of_splitBlock hend hsp
    simp only [closesBlock_cons hhe] at h
    have hend' : ∀ tail, c = '*' → body ++ more = '/' :: tail → False := by
      intro tail hc hta
      cases body with
      | nil =>
        obtain rfl : more = [] := by simpa [closesBlock] using h
        cases hta
      | cons d os => exact hhe hc (by rw [head?_cons, (cons.inj hta).1])
    rw [cons_append, splitBlock.eq_3 c _ hend', ih h]

/-! ## The end of a piece -/

/-- Whether nothing is missing at the end of a piece. -/
def Piece.isComplete (piece : Piece) : Bool :=
  match piece.kind, piece.text with
  | .quoted, quote :: body => closesQuote quote body
  | .comment, '/' :: '*' :: body => closesBlock body
  | .comment, text => text.contains '\n'
  | _, _ => true

/-- Whether a character right after a piece belongs to it, or makes a comment of it. -/
def Piece.goesOn (piece : Piece) (c : Char) : Bool :=
  match piece.kind with
  | .name => isNameChar c
  | .other => piece.text == ['/'] && (c == '/' || c == '*')
  | _ => false

def Piece.EndsBefore (piece : Piece) (more : Chars) : Prop :=
  more = [] ∨ piece.isComplete ∧ ∀ c, more.head? = some c → piece.goesOn c = false

lemma Piece.EndsBefore.congr (h : piece.EndsBefore more) (hhe : other.head? = more.head?) :
    piece.EndsBefore other := by
  rcases h with rfl | ⟨hco, hst⟩
  · exact .inl (head?_eq_none_iff.mp hhe)
  · exact .inr ⟨hco, fun c hc => hst c (hhe ▸ hc)⟩

lemma Piece.EndsBefore.name {d : Char} (h : piece.EndsBefore (c :: more)) (hc : isNameChar c)
    (hd : isNameChar d) (other : Chars) : piece.EndsBefore (d :: other) := by
  obtain hnil | ⟨hco, hsp⟩ := h
  · cases hnil
  · refine .inr ⟨hco, ?_⟩
    rintro e he
    have hsl := ne_of_isNameChar hd (by decide : isNameChar '/' = false)
    have hst := ne_of_isNameChar hd (by decide : isNameChar '*' = false)
    cases hk : piece.kind <;> simp_all [goesOn]

lemma Piece.next_endsBefore (c : Char) (rest : Chars) :
    (next c rest).1.EndsBefore (next c rest).2 := by
  by_cases hend : (next c rest).2 = []
  · exact .inl hend
  refine .inr ?_
  rcases char_cases c with hq | rfl | hop | hclo | hp
  · rw [next_quoted hq] at hend ⊢
    rcases run_splitQuoted hq rest 0 with ⟨hcl, _⟩ | ⟨_, hnil, _⟩
    · exact ⟨hcl, fun _ _ => rfl⟩
    · exact absurd hnil hend
  · rcases slash_cases rest with ⟨s, rfl⟩ | ⟨s, rfl⟩ | hne
    · rw [next_line] at hend ⊢
      exact ⟨by simpa [isComplete] using mem_splitLine_of_ne_nil hend, fun _ _ => rfl⟩
    · rcases run_splitBlock s 0 with ⟨hcl, _⟩ | ⟨_, hnil, _⟩
      · exact ⟨hcl, fun _ _ => rfl⟩
      · exact absurd hnil hend
    · rw [next_slash hne]
      refine ⟨rfl, fun d hd => ?_⟩
      simp_all [goesOn]
  · rw [next_opening hop]
    exact ⟨rfl, fun _ _ => rfl⟩
  · rw [next_closing hclo]
    exact ⟨rfl, fun _ _ => rfl⟩
  · have hsl : c ≠ '/' := by
      rintro rfl
      revert hp
      decide
    rw [next_plain hp]
    split
    · refine ⟨rfl, fun d hd => ?_⟩
      have hhe := head?_dropWhile_not isNameChar rest
      rw [hd] at hhe
      simpa [goesOn] using hhe
    · exact ⟨rfl, fun d _ => by simp [goesOn, hsl]⟩

lemma Piece.next_of_endsBefore (h : (next c rest).1.EndsBefore more) :
    ∃ body, (next c rest).1.text = c :: body ∧ next c (body ++ more) = ((next c rest).1, more) := by
  rcases char_cases c with hq | rfl | hop | hclo | hp
  · rw [next_quoted hq] at h ⊢
    exact ⟨_, rfl, by rw [next_quoted hq, splitQuoted_body hq (h.imp_right And.left)]⟩
  · rcases slash_cases rest with ⟨s, rfl⟩ | ⟨s, rfl⟩ | hne
    · rw [next_line] at h ⊢
      have hl : more = [] ∨ '\n' ∈ (splitLine s).1 :=
        h.imp_right fun hen => by simpa [isComplete] using hen.1
      exact ⟨_, rfl, by rw [cons_append, next_line, splitLine_body hl]⟩
    · rw [next_block] at h ⊢
      exact ⟨_, rfl, by rw [cons_append, next_block, splitBlock_body (h.imp_right And.left)]⟩
    · rw [next_slash hne] at h ⊢
      have hst : more.head? ≠ some '/' ∧ more.head? ≠ some '*' := by
        rcases h with rfl | ⟨_, hgo⟩
        · simp
        · constructor <;> exact fun hhe => by simpa [goesOn] using hgo _ hhe
      exact ⟨[], rfl, next_slash hst⟩
  · rw [next_opening hop]
    exact ⟨[], rfl, next_opening hop more⟩
  · rw [next_closing hclo]
    exact ⟨[], rfl, next_closing hclo more⟩
  · by_cases hn : isNameChar c
    · rw [next_plain hp, if_pos hn] at h ⊢
      have hb : ∀ d ∈ rest.takeWhile isNameChar, isNameChar d := all_eq_true.mp all_takeWhile
      -- a name that ends before the rest does not go on in it
      have hst : more.takeWhile isNameChar = [] ∧ more.dropWhile isNameChar = more := by
        cases more with
        | nil => simp
        | cons d os =>
          obtain hnil | ⟨_, hgo⟩ := h
          · cases hnil
          · have hd : isNameChar d = false := hgo d rfl
            simp [hd]
      refine ⟨_, rfl, ?_⟩
      rw [next_plain hp, if_pos hn, takeWhile_append_of_pos hb, dropWhile_append_of_pos hb, hst.1,
        hst.2, append_nil]
    · rw [next_plain hp, if_neg hn]
      exact ⟨[], rfl, by rw [nil_append, next_plain hp, if_neg hn]⟩

/-! ## The first pieces of a text -/

def textOf (ps : List Piece) : Chars := ps.flatMap (·.text)

@[simp] lemma textOf_nil : textOf [] = [] := rfl

@[simp] lemma textOf_cons (piece : Piece) (rest : List Piece) :
    textOf (piece :: rest) = piece.text ++ textOf rest := rfl

@[simp] lemma textOf_append (fst snd : List Piece) :
    textOf (fst ++ snd) = textOf fst ++ textOf snd := by
  simp [textOf]

lemma textOf_flatten (pss : List (List Piece)) : textOf pss.flatten = (pss.map textOf).flatten := by
  induction pss with
  | nil => rfl
  | cons fst rest ih => rw [flatten_cons, textOf_append, ih, map_cons, flatten_cons]

lemma textOf_pieces (s : Chars) : textOf (pieces s) = s := flatMap_pieces s

lemma text_ne_nil_of_mem_pieces (h : piece ∈ pieces s) : piece.text ≠ [] := by
  fun_induction pieces s with
  | case1 => simp at h
  | case2 c rest ih =>
    rcases mem_cons.mp h with rfl | hr
    · intro hnil
      have hap := next_append c rest
      have hlen := next_length c rest
      rw [hnil, nil_append] at hap
      rw [hap] at hlen
      exact Nat.lt_irrefl _ hlen
    · exact ih hr

/-- Pieces of a text stay the same before any text that does not go on with the last of them. -/
theorem pieces_before (h : pieces s = ps ++ qs)
    (hl : ∀ piece, ps.getLast? = some piece → piece.EndsBefore more) :
    pieces (textOf ps ++ more) = ps ++ pieces more := by
  induction ps generalizing s with
  | nil => rfl
  | cons fst os ih =>
    cases s with
    | nil => simp [pieces] at h
    | cons c rest =>
      rw [pieces_cons, cons_append] at h
      obtain ⟨rfl, hos⟩ := cons.inj h
      have hen : (next c rest).1.EndsBefore (textOf os ++ more) := by
        cases os with
        | nil => exact hl _ rfl
        | cons snd later =>
          -- the next piece is the same one
          have h2 : snd.text ≠ [] := text_ne_nil_of_mem_pieces (by rw [hos]; exact mem_cons_self)
          obtain ⟨d, letters, hcons⟩ := exists_cons_of_ne_nil h2
          refine (next_endsBefore c rest).congr ?_
          rw [← textOf_pieces (next c rest).2, hos]
          simp [hcons]
      obtain ⟨body, ht, hnx⟩ := next_of_endsBefore hen
      have hr := ih hos fun piece hp => hl piece <| by
        rw [getLast?_cons, hp]
        rfl
      rw [textOf_cons, ht, append_assoc, cons_append, pieces_cons, hnx, hr, cons_append]

lemma endsBefore_of_pieces (h : pieces s = ps ++ qs) :
    ∀ piece, ps.getLast? = some piece → piece.EndsBefore (textOf qs) := by
  induction ps generalizing s with
  | nil => simp
  | cons fst os ih =>
    cases s with
    | nil => simp [pieces] at h
    | cons c rest =>
      rw [pieces_cons, cons_append] at h
      obtain ⟨rfl, hos⟩ := cons.inj h
      cases os with
      | nil =>
        rintro piece hp
        obtain rfl : _ = piece := Option.some_inj.mp hp
        have hen := next_endsBefore c rest
        rwa [← textOf_pieces (next c rest).2, hos] at hen
      | cons snd later => exact ih hos

lemma pieces_textOf (h : pieces s = ps ++ qs) : pieces (textOf ps) = ps := by
  simpa [pieces] using pieces_before h fun piece _ => (.inl rfl : piece.EndsBefore [])

lemma pieces_textOf_right (h : pieces s = ps ++ qs) : pieces (textOf qs) = qs := by
  have hps := pieces_before h (endsBefore_of_pieces h)
  rw [← textOf_append, ← h, textOf_pieces, h] at hps
  exact (append_cancel_left hps).symm

lemma pieces_append_of_endsBefore (h : ∀ piece, (pieces s).getLast? = some piece →
    piece.EndsBefore more) : pieces (s ++ more) = pieces s ++ pieces more := by
  have hps := pieces_before (append_nil (pieces s)).symm h
  rwa [textOf_pieces] at hps

lemma isNameChar_of_mem_pieces (h : piece ∈ pieces s) (hk : piece.kind = .name) :
    IsLetters piece.text := by
  fun_induction pieces s with
  | case1 => simp at h
  | case2 c rest ih =>
    rcases mem_cons.mp h with rfl | hr
    · rcases char_cases c with hq | rfl | hop | hclo | hp
      · simp [next_quoted hq] at hk
      · rcases slash_cases rest with ⟨s, rfl⟩ | ⟨s, rfl⟩ | hne
        · cases hk
        · cases hk
        · simp [next_slash hne] at hk
      · simp [next_opening hop] at hk
      · simp [next_closing hclo] at hk
      · rw [next_plain hp] at hk ⊢
        split at hk
        next hn =>
          rw [if_pos hn]
          exact forall_mem_cons.mpr ⟨hn, all_eq_true.mp all_takeWhile⟩
        · simp at hk
    · exact ih hr

lemma exists_of_pieces_name (h : pieces s = piece :: ps) (hk : piece.kind = .name) :
    ∃ rest, s = piece.text ++ rest ∧ piece.text ≠ [] ∧ IsLetters piece.text ∧ EndsName rest := by
  have hm : piece ∈ pieces s := by
    rw [h]
    exact mem_cons_self
  refine ⟨textOf ps, by rw [← textOf_cons, ← h, textOf_pieces], text_ne_nil_of_mem_pieces hm,
    isNameChar_of_mem_pieces hm hk, fun c hc => ?_⟩
  have hal : pieces s = [piece] ++ ps := h
  rcases endsBefore_of_pieces hal piece rfl with hnil | ⟨_, hst⟩
  · rw [hnil] at hc
    cases hc
  · simpa [goesOn, hk] using hst c hc

lemma pieces_append (hcl : ∀ piece ∈ pieces s, piece.isClosed) (hend : s.getLast? = some '\n')
    (more : Chars) : pieces (s ++ more) = pieces s ++ pieces more := by
  refine pieces_append_of_endsBefore fun piece hp => .inr ?_
  have hm := mem_of_getLast? hp
  obtain ⟨front, hfr⟩ := getLast?_eq_some_iff.mp hp
  have hl : piece.text.getLast? = some '\n' := by
    rw [← textOf_pieces s, hfr, textOf_append] at hend
    simpa [getLast?_append, text_ne_nil_of_mem_pieces hm] using hend
  have hne := mem_of_getLast? hl
  have hcl := hcl piece hm
  obtain ⟨kind, text⟩ := piece
  cases kind with
  | quoted => exact ⟨by cases text <;> simp_all [isComplete, isClosed], fun _ _ => rfl⟩
  | comment =>
    refine ⟨?_, fun _ _ => rfl⟩
    unfold isComplete isClosed at *
    split <;> simp_all
  | opening => exact ⟨rfl, fun _ _ => rfl⟩
  | closing => exact ⟨rfl, fun _ _ => rfl⟩
  | name =>
    exact absurd (isNameChar_of_mem_pieces hm rfl _ hne) (by decide)
  | other =>
    refine ⟨rfl, fun c _ => ?_⟩
    have hsl : text ≠ ['/'] := by
      rintro rfl
      cases hl
    simp [goesOn, hsl]

end GraphApi.Cypher
