import GraphApi.Cypher.Clause
import GraphApi.Proofs.Cypher.Boundary

/-!
# Clauses as groups of pieces

The clauses of a statement are groups of its pieces, each one from a keyword outside all brackets
on. Main statements: splitting a statement gives its groups (`split_eq_groups`), what stands in
brackets starts no clause (`groupFrom_inner`), and the clauses follow one another up to the end of
the statement, so a text that takes the place of one changes nothing else (`split_partition`).
-/

namespace GraphApi.Cypher

open List Piece Option

variable {s prev rest : Chars} {c : Char} {piece : Piece} {depth stop : Nat} {pre : Option Char}
  {kw : Keyword} {ps : List Piece} {stmt : Chars} {repl : Nat → Option Chars}
  {gs : List (Keyword × List Piece)} {cl : Clause}

/-! ## The first piece of a text -/

lemma pieces_word {word : Chars} (hne : word ≠ []) (hw : IsLetters word) (hr : EndsName rest) :
    pieces (word ++ rest) = ⟨.name, word⟩ :: pieces rest := by
  obtain ⟨c, os, rfl⟩ := exists_cons_of_ne_nil hne
  have hc := hw c mem_cons_self
  have hos : ∀ d ∈ os, isNameChar d := (forall_mem_cons.mp hw).2
  have hst : rest.takeWhile isNameChar = [] ∧ rest.dropWhile isNameChar = rest := by
    cases rest with
    | nil => simp
    | cons d tail => simp [hr d rfl]
  rw [cons_append, pieces_cons, next_plain (isPlain_of_isNameChar hc), if_pos hc,
    takeWhile_append_of_pos hos, dropWhile_append_of_pos hos, hst.1, hst.2]
  simp

lemma pieces_other (hp : isPlain c) (hn : isNameChar c = false) (rest : Chars) :
    pieces (c :: rest) = ⟨.other, [c]⟩ :: pieces rest := by
  rw [pieces_cons, next_plain hp]
  simp [hn]

lemma pieces_opening (h : isOpening c) (rest : Chars) :
    pieces (c :: rest) = ⟨.opening, [c]⟩ :: pieces rest := by
  rw [pieces_cons, next_opening h]

lemma pieces_closing (h : isClosing c) (rest : Chars) :
    pieces (c :: rest) = ⟨.closing, [c]⟩ :: pieces rest := by
  rw [pieces_cons, next_closing h]

/-! ## Groups -/

def Piece.word? (before : Option Char) (piece : Piece) : Option Chars :=
  if piece.kind = .name && !isAccess before then some piece.text else none

def Piece.starts? (depth : Nat) (before : Option Char) (prev : Chars) (piece : Piece) :
    Option Keyword :=
  (piece.word? before).bind fun text => Word.starts? ⟨0, text, depth⟩ prev

def Piece.wordAfter (before : Option Char) (prev : Chars) (piece : Piece) : Chars :=
  ((piece.word? before).map Text.upperChars).getD prev

def groupFrom (prev : Chars) (depth : Nat) (before : Option Char) :
    List Piece → List Piece × List (Keyword × List Piece)
  | [] => ([], [])
  | piece :: rest =>
    let others := groupFrom (piece.wordAfter before prev) (piece.depthAfter depth)
      piece.text.getLast? rest
    match piece.starts? depth before prev with
    | some keyword => ([], (keyword, piece :: others.1) :: others.2)
    | none => (piece :: others.1, others.2)

/-- A piece that starts no clause belongs to the text before the next one. -/
lemma groupFrom_of_none (h : piece.starts? depth pre prev = none) (rest : List Piece) :
    groupFrom prev depth pre (piece :: rest) =
      (piece :: (groupFrom (piece.wordAfter pre prev) (piece.depthAfter depth)
        piece.text.getLast? rest).1,
        (groupFrom (piece.wordAfter pre prev) (piece.depthAfter depth) piece.text.getLast?
          rest).2) := by
  simp [groupFrom, h]

lemma groupFrom_of_some (h : piece.starts? depth pre prev = some kw) (rest : List Piece) :
    groupFrom prev depth pre (piece :: rest) = ([], (kw, piece ::
          (groupFrom (piece.wordAfter pre prev) (piece.depthAfter depth)
            piece.text.getLast? rest).1) ::
        (groupFrom (piece.wordAfter pre prev) (piece.depthAfter depth) piece.text.getLast?
          rest).2) := by
  simp [groupFrom, h]

def groups (stmt : Chars) : List Piece × List (Keyword × List Piece) :=
  groupFrom [] 0 none (pieces stmt)

def startsOf (offset : Nat) : List (Keyword × List Piece) → List (Nat × Keyword)
  | [] => []
  | (keyword, group) :: rest => (offset, keyword) :: startsOf (offset + (textOf group).length) rest

def clausesOf (offset : Nat) : List (Keyword × List Piece) → List Clause
  | [] => []
  | (keyword, group) :: rest =>
    { keyword, start := offset, text := textOf group } :: clausesOf
      (offset + (textOf group).length) rest

lemma map_clausesOf {α : Type} (step : Keyword → Chars → α) (off : Nat)
    (gs : List (Keyword × List Piece)) :
    (clausesOf off gs).map (fun cl => step cl.keyword cl.text) = gs.map fun group =>
      step group.1 (textOf group.2) := by
  induction gs generalizing off with
  | nil => rfl
  | cons group rest ih => simp [clausesOf, ih]

lemma groupFrom_flatten (prev : Chars) (depth : Nat) (pre : Option Char) (ps : List Piece) :
    (groupFrom prev depth pre ps).1 ++ (groupFrom prev depth pre ps).2.flatMap (·.2) = ps := by
  induction ps generalizing prev depth pre with
  | nil => rfl
  | cons piece rest ih =>
    cases hst : piece.starts? depth pre prev with
    | none =>
      rw [groupFrom_of_none hst]
      simpa using ih _ _ _
    | some kw =>
      rw [groupFrom_of_some hst]
      simpa using ih _ _ _

lemma wordsFrom_cons (off depth : Nat) (pre : Option Char) (piece : Piece) (rest : List Piece) :
    wordsFrom off depth pre (piece :: rest) =
      ((piece.word? pre).map fun text => Word.mk off text depth).toList ++
        wordsFrom (off + piece.text.length) (piece.depthAfter depth) piece.text.getLast? rest := by
  rw [wordsFrom, word?]
  split <;> simp

def depthOver (depth : Nat) (ps : List Piece) :
    Nat := ps.foldl (fun depth piece => piece.depthAfter depth) depth

def lastOver (before : Option Char) (ps : List Piece) : Option Char :=
  ps.foldl (fun _ piece => piece.text.getLast?) before

lemma lastOver_eq (hne : ∀ piece ∈ ps, piece.text ≠ []) (pre : Option Char) :
    lastOver pre ps = (textOf ps).getLast?.or pre := by
  induction ps generalizing pre with
  | nil => rfl
  | cons piece rest ih =>
    have hp := hne piece mem_cons_self
    have hr := ih (forall_mem_cons.mp hne).2 piece.text.getLast?
    obtain ⟨last, hl⟩ : ∃ last, piece.text.getLast? = some last := ⟨_, getLast?_eq_some_getLast hp⟩
    rw [textOf_cons, getLast?_append, lastOver, foldl_cons]
    rw [lastOver] at hr
    rw [hr, hl]
    cases (textOf rest).getLast? <;> rfl

lemma lastOver_pieces (s : Chars) : lastOver none (pieces s) = s.getLast? := by
  rw [lastOver_eq (fun piece hp => text_ne_nil_of_mem_pieces hp), textOf_pieces, or_none]

lemma wordsFrom_append (off depth : Nat) (pre : Option Char) (ps qs : List Piece) :
    wordsFrom off depth pre (ps ++ qs) = wordsFrom off depth pre ps ++
      wordsFrom (off + (textOf ps).length) (depthOver depth ps) (lastOver pre ps) qs := by
  induction ps generalizing off depth pre with
  | nil => rfl
  | cons piece rest ih => simp [wordsFrom_cons, ih, depthOver, lastOver, Nat.add_assoc]

lemma startsFrom_wordsFrom (prev : Chars) (off depth : Nat) (pre : Option Char) (ps : List Piece) :
    startsFrom prev (wordsFrom off depth pre ps) =
      startsOf (off + (textOf (groupFrom prev depth pre ps).1).length)
      (groupFrom prev depth pre ps).2 := by
  induction ps generalizing prev off depth pre with
  | nil => rfl
  | cons piece rest ih =>
    rw [wordsFrom_cons]
    cases hw : piece.word? pre with
    | none =>
      have hst : piece.starts? depth pre prev = none := by simp [starts?, hw]
      have ha : piece.wordAfter pre prev = prev := by simp [wordAfter, hw]
      rw [groupFrom_of_none hst, ha]
      simp [ih, Nat.add_assoc]
    | some text =>
      -- whether a word starts a clause does not depend on where it stands
      have ha : piece.wordAfter pre prev = Text.upperChars text := by simp [wordAfter, hw]
      have hst : Word.starts? ⟨off, text, depth⟩ prev = piece.starts? depth pre prev := by
        simp [starts?, hw, Word.starts?]
      simp only [map_some, toList_some, cons_append, nil_append, startsFrom, hst]
      cases hkw : piece.starts? depth pre prev with
      | none =>
        rw [groupFrom_of_none hkw, ha]
        simp [ih, Nat.add_assoc]
      | some kw =>
        rw [groupFrom_of_some hkw, ha]
        simp [ih, startsOf, Nat.add_assoc]

lemma cutAt_startsOf (off : Nat) (gs : List (Keyword × List Piece)) :
    cutAt (textOf (gs.flatMap (·.2))) (startsOf off gs) = clausesOf off gs := by
  induction gs generalizing off with
  | nil => rfl
  | cons fst rest ih =>
    obtain ⟨kw, group⟩ := fst
    cases rest with
    | nil => simp [startsOf, cutAt, clausesOf]
    | cons snd os =>
      have hr := ih (off + (textOf group).length)
      simp only [startsOf] at hr
      simp only [startsOf, cutAt, clausesOf, flatMap_cons, textOf_append, Nat.add_sub_cancel_left]
      simpa [clausesOf] using hr

/-- Splitting a statement gives the groups of its pieces. -/
theorem split_eq_groups (stmt : Chars) :
    split stmt =
      { preamble := textOf (groups stmt).1
        clauses := clausesOf (textOf (groups stmt).1).length (groups stmt).2 } := by
  have hwh : textOf (groups stmt).1 ++ textOf ((groups stmt).2.flatMap (·.2)) = stmt := by
    rw [← textOf_append, groups, groupFrom_flatten, textOf_pieces]
  have hst : starts stmt = startsOf (textOf (groups stmt).1).length (groups stmt).2 := by
    rw [starts, words, startsFrom_wordsFrom, Nat.zero_add]
    rfl
  have hcut := cutAt_startsOf (textOf (groups stmt).1).length (groups stmt).2
  unfold split
  rw [hst]
  cases hgr : (groups stmt).2 with
  | nil =>
    rw [hgr] at hwh
    simpa [startsOf, clausesOf] using hwh.symm
  | cons fst rest =>
    rw [hgr] at hwh hcut
    generalize textOf (groups stmt).1 = front at hwh hcut ⊢
    subst hwh
    simp only [startsOf] at hcut ⊢
    rw [take_left, drop_left, hcut]

lemma starts_eq_map (stmt : Chars) :
    starts stmt = (split stmt).clauses.map fun cl => (cl.start, cl.keyword) := by
  rw [starts, words, startsFrom_wordsFrom, Nat.zero_add, split_eq_groups, groups]
  generalize (textOf (groupFrom [] 0 none (pieces stmt)).1).length = off
  induction (groupFrom [] 0 none (pieces stmt)).2 generalizing off with
  | nil => rfl
  | cons fst rest ih => simp [startsOf, clausesOf, ih]

/-! ## What starts a group -/

lemma Piece.starts?_eq_some (h : piece.starts? depth pre prev = some kw) :
    depth = 0 ∧ piece.kind = .name ∧ Text.upperChars piece.text = kw.word.toList := by
  unfold starts? word? at h
  split at h
  next hw =>
    have hk : piece.kind = .name := by
      simp only [Bool.and_eq_true, decide_eq_true_eq] at hw
      exact hw.1
    rw [bind_some, Word.starts?] at h
    split at h
    next hdp =>
      have hfo : Keyword.ofCapitals? (Text.upperChars piece.text) = some kw := by
        rw [filter_eq_some_iff] at h
        exact h.1
      have hcap := find?_some hfo
      exact ⟨hdp, hk, (eq_of_beq hcap).symm⟩
    · cases h
  · cases h

lemma exists_piece_of_mem_groupFrom {group : List Piece}
    (h : (kw, group) ∈ (groupFrom prev depth pre ps).2) :
    ∃ piece rest, group = piece :: rest ∧ piece.kind = .name ∧
      Text.upperChars piece.text = kw.word.toList := by
  induction ps generalizing prev depth pre with
  | nil => cases h
  | cons piece rest ih =>
    cases hst : piece.starts? depth pre prev with
    | none =>
      rw [groupFrom_of_none hst] at h
      exact ih h
    | some found =>
      rw [groupFrom_of_some hst] at h
      rcases mem_cons.mp h with heq | hr
      · obtain ⟨rfl, rfl⟩ := Prod.mk.inj heq
        obtain ⟨_, hk, hup⟩ := starts?_eq_some hst
        exact ⟨piece, _, rfl, hk, hup⟩
      · exact ih hr

lemma depthAfter?_cons {rest : List Piece} (h : depthAfter? depth (piece :: rest) = some stop) :
    ¬ (piece.kind = .closing ∧ depth = 0) ∧ depthAfter? (piece.depthAfter depth) rest =
      some stop := by
  rw [depthAfter?] at h
  split at h
  · cases h
  next hbr => exact ⟨hbr, h⟩

lemma Piece.depthAfter_add {outer : Nat} (h : ¬ (piece.kind = .closing ∧ depth = 0)) :
    piece.depthAfter (depth + outer) = piece.depthAfter depth + outer := by
  unfold depthAfter
  split
  · omega
  next hk =>
    have hpos : depth ≠ 0 := fun hze => h ⟨hk, hze⟩
    omega
  · rfl

lemma depthOver_add (h : depthAfter? depth ps = some stop) (outer : Nat) :
    depthOver (depth + outer) ps = stop + outer := by
  induction ps generalizing depth with
  | nil => simpa [depthAfter?, depthOver] using h
  | cons piece rest ih =>
    obtain ⟨hbr, hr⟩ := depthAfter?_cons h
    rw [depthOver, foldl_cons, depthAfter_add hbr]
    exact ih hr

lemma depthAfter?_groupFrom (prev : Chars) (pre : Option Char)
    (hdp : depthAfter? depth ps = some 0) :
    depthAfter? depth (groupFrom prev depth pre ps).1 = some 0 ∧
      ∀ group ∈ (groupFrom prev depth pre ps).2, depthAfter? 0 group.2 = some 0 := by
  induction ps generalizing prev depth pre with
  | nil => exact ⟨hdp, by simp [groupFrom]⟩
  | cons piece rest ih =>
    obtain ⟨hbr, hr⟩ := depthAfter?_cons hdp
    obtain ⟨hfr, hgr⟩ := ih (piece.wordAfter pre prev) piece.text.getLast? hr
    have h1 : depthAfter? depth (piece :: (groupFrom (piece.wordAfter pre prev)
        (piece.depthAfter depth) piece.text.getLast? rest).1) = some 0 := by
      rwa [depthAfter?, if_neg hbr]
    cases hst : piece.starts? depth pre prev with
    | none =>
      rw [groupFrom_of_none hst]
      exact ⟨h1, hgr⟩
    | some kw =>
      rw [groupFrom_of_some hst]
      obtain ⟨rfl, _, _⟩ := starts?_eq_some hst
      -- a group starts outside all brackets, so what stands before it is closed there
      refine ⟨rfl, ?_⟩
      intro group hg
      rcases mem_cons.mp hg with rfl | hg
      · exact h1
      · exact hgr group hg

/-- What stands in brackets stays in the group that it starts in. -/
theorem groupFrom_inner {inner : List Piece} (hin : depthAfter? depth inner = some stop)
    (prev : Chars)
    (pre : Option Char) : ∃ prev' before', ∀ rest, groupFrom prev (depth + 1) pre (inner ++ rest) =
      (inner ++ (groupFrom prev' (stop + 1) before' rest).1,
        (groupFrom prev' (stop + 1) before' rest).2) := by
  induction inner generalizing prev depth pre with
  | nil =>
    have heq : depth = stop := by simpa [depthAfter?] using hin
    exact ⟨prev, pre, fun rest => by simp [heq]⟩
  | cons piece os ih =>
    obtain ⟨hbr, hos⟩ := depthAfter?_cons hin
    have hst : piece.starts? (depth + 1) pre prev = none := by
      cases hfo : piece.starts? (depth + 1) pre prev with
      | none => rfl
      | some kw => exact absurd (starts?_eq_some hfo).1 (by omega)
    obtain ⟨prev', before', hr⟩ := ih hos (piece.wordAfter pre prev) piece.text.getLast?
    refine ⟨prev', before', fun rest => ?_⟩
    rw [cons_append, groupFrom_of_none hst, depthAfter_add hbr, hr]
    rfl

/-- The clauses are the slices of the statement from one start to the next. -/
structure IsPartition (stmt : Chars) (parsed : Statement) : Prop where
  rises : parsed.clauses.Pairwise (·.start < ·.start)
  meets : ∀ place clause, parsed.clauses[place]? = some clause →
    clause.stop = (parsed.clauses[place + 1]?.map (·.start)).getD stmt.length
  slices : ∀ clause ∈ parsed.clauses, clause.text = (stmt.drop clause.start).take
    (clause.stop - clause.start)
  /-- A clause begins with its keyword, which is a bare word outside all brackets. -/
  begins : ∀ clause ∈ parsed.clauses, ∃ word ∈ words stmt, word.offset = clause.start ∧
    word.depth = 0 ∧
    word.text <+: clause.text ∧ Text.upperChars word.text = clause.keyword.word.toList
  /-- A bare word outside all brackets begins a clause if it is a keyword that never goes on with one. -/
  covers : ∀ word ∈ words stmt, word.depth = 0 →
    ∀ keyword, Keyword.ofCapitals? (Text.upperChars word.text) =
    some keyword → keyword.continuedAfter = [] → ∃ clause ∈ parsed.clauses,
      clause.start = word.offset ∧ clause.keyword = keyword
  preamble : parsed.preamble = stmt.take ((parsed.clauses.head?.map (·.start)).getD stmt.length)

/-- A text with another one in place of the slice between two offsets. -/
def splice (start stop : Nat) (text stmt : Chars) : Chars :=
  stmt.take start ++ text ++ stmt.drop stop

/-- A text with the slices of the replaced clauses exchanged, from the last one to the first. -/
def exchange (replacement : Nat → Option Chars) (clauses : List Clause) (stmt : Chars) : Chars :=
  clauses.zipIdx.foldr (fun entry result =>
    (replacement entry.2).elim result fun text =>
    splice entry.1.start entry.1.stop text result) stmt

/-! ## Groups one after the other -/

lemma pairwise_clausesOf (hne : ∀ group ∈ gs, textOf group.2 ≠ []) (off : Nat) :
    (∀ cl ∈ clausesOf off gs, off ≤ cl.start) ∧
      (clausesOf off gs).Pairwise (·.start < ·.start) := by
  induction gs generalizing off with
  | nil => simp [clausesOf]
  | cons fst rest ih =>
    obtain ⟨hle, hri⟩ := ih (forall_mem_cons.mp hne).2 (off + (textOf fst.2).length)
    have hpos := length_pos_iff.mpr (hne fst mem_cons_self)
    rw [clausesOf, forall_mem_cons, pairwise_cons]
    refine ⟨⟨Nat.le_refl _, fun cl hcl => ?_⟩, fun cl hcl => ?_, hri⟩ <;>
      have := hle cl hcl
    · omega
    · show off < cl.start
      omega

lemma stop_clausesOf (off : Nat) {place : Nat} (h : (clausesOf off gs)[place]? = some cl) :
    cl.stop = ((clausesOf off gs)[place + 1]?.map (·.start)).getD
      (off + (textOf (gs.flatMap (·.2))).length) := by
  induction gs generalizing off place with
  | nil => cases h
  | cons fst rest ih =>
    rw [clausesOf] at h ⊢
    rw [getElem?_cons_succ, flatMap_cons, textOf_append, length_append, ← Nat.add_assoc]
    cases place with
    | zero =>
      obtain rfl := some_inj.mp h
      cases rest <;> simp [clausesOf, Clause.stop]
    | succ place => exact ih _ h

lemma slices_clausesOf {front : Chars} (h : cl ∈ clausesOf front.length gs) :
    cl.text = ((front ++ textOf (gs.flatMap (·.2))).drop cl.start).take cl.text.length := by
  induction gs generalizing front with
  | nil => cases h
  | cons fst rest ih =>
    rcases mem_cons.mp h with rfl | hr
    · simp
    · rw [← length_append] at hr
      simpa using ih hr

lemma exchange_clausesOf (repl : Nat → Option Chars) (gs : List (Keyword × List Piece))
    (front : Chars) (place : Nat) : ((clausesOf front.length gs).zipIdx place).foldr (fun e res =>
        (repl e.2).elim res fun text => splice e.1.start e.1.stop text res)
      (front ++ textOf (gs.flatMap (·.2))) = front ++
      renderFrom repl place (clausesOf front.length gs) := by
  induction gs generalizing front place with
  | nil => simp [clausesOf, renderFrom]
  | cons fst rest ih =>
    -- the later groups are exchanged first, which leaves this one where it is
    have hr := ih (front ++ textOf fst.2) (place + 1)
    rw [length_append, append_assoc, append_assoc] at hr
    rw [clausesOf, zipIdx_cons, foldr_cons, flatMap_cons, textOf_append, hr, renderFrom]
    cases repl place with
    | none => rfl
    | some text => simp [splice, Clause.stop]

lemma begins_clausesOf (prev : Chars) (off depth : Nat) (pre : Option Char) {ps : List Piece}
    (h : cl ∈ clausesOf (off + (textOf (groupFrom prev depth pre ps).1).length)
      (groupFrom prev depth pre ps).2) :
    ∃ word ∈ wordsFrom off depth pre ps, word.offset = cl.start ∧ word.depth = 0 ∧
      word.text <+: cl.text ∧ Text.upperChars word.text = cl.keyword.word.toList := by
  induction ps generalizing prev off depth pre with
  | nil => cases h
  | cons piece rest ih =>
    have hr := @ih (piece.wordAfter pre prev) (off + piece.text.length) (piece.depthAfter depth)
      piece.text.getLast?
    rw [wordsFrom_cons]
    simp only [mem_append]
    cases hst : piece.starts? depth pre prev with
    | none =>
      rw [groupFrom_of_none hst, textOf_cons, length_append, ← Nat.add_assoc] at h
      obtain ⟨word, hw, hfo⟩ := hr h
      exact ⟨word, .inr hw, hfo⟩
    | some kw =>
      rw [groupFrom_of_some hst, clausesOf, textOf_cons, length_append] at h
      rcases mem_cons.mp h with rfl | hla
      · obtain ⟨rfl, hk, hcap⟩ := starts?_eq_some hst
        have hw : piece.word? pre = some piece.text := by
          cases hac : isAccess pre <;> simp_all [starts?, word?]
        exact ⟨⟨off, piece.text, 0⟩, .inl (by simp [hw]), by simp, rfl, prefix_append _ _, hcap⟩
      · obtain ⟨word, hw, hfo⟩ := hr (by simpa [Nat.add_assoc] using hla)
        exact ⟨word, .inr hw, hfo⟩

lemma mem_startsFrom {word : Word} {kw : Keyword} {ws : List Word} (h : word ∈ ws)
    (hst : ∀ prev, word.starts? prev = some kw) (prev : Chars) :
    (word.offset, kw) ∈ startsFrom prev ws := by
  induction ws generalizing prev with
  | nil => cases h
  | cons fst rest ih =>
    rw [startsFrom]
    rcases mem_cons.mp h with rfl | hr
    · simp [hst]
    · have hla := ih hr (Text.upperChars fst.text)
      split
      · exact mem_cons_of_mem _ hla
      · exact hla

/-! ## Whole statements -/

lemma textOf_groups (stmt : Chars) :
    textOf (groups stmt).1 ++ textOf ((groups stmt).2.flatMap (·.2)) = stmt := by
  rw [← textOf_append, groups, groupFrom_flatten, textOf_pieces]

lemma isPartition_split (stmt : Chars) : IsPartition stmt (split stmt) := by
  have hwh := textOf_groups stmt
  have hst := starts_eq_map stmt
  rw [split_eq_groups] at hst ⊢
  refine ⟨(pairwise_clausesOf ?_ _).2, fun place cl hcl => ?_, fun cl hcl => ?_,
    fun cl hcl => ?_, fun word hw hdp kw hkw hne => ?_, ?_⟩
  · rintro ⟨kw, group⟩ hg hnil
    obtain ⟨piece, rest, rfl, _, hw⟩ := exists_piece_of_mem_groupFrom hg
    rw [textOf_cons, append_eq_nil_iff] at hnil
    rw [hnil.1] at hw
    revert hw
    cases kw <;> decide
  · have hsp := stop_clausesOf _ hcl
    rwa [← length_append, hwh] at hsp
  · have hsl := slices_clausesOf hcl
    rwa [hwh, ← Nat.add_sub_cancel_left cl.start cl.text.length] at hsl
  · refine begins_clausesOf [] 0 0 none ?_
    rwa [Nat.zero_add]
  · have hm : (word.offset, kw) ∈ starts stmt := mem_startsFrom hw (fun prev => by
      simp [Word.starts?, hdp, hkw, Keyword.continues, hne]) []
    rw [hst] at hm
    obtain ⟨cl, hcl, heq⟩ := mem_map.mp hm
    exact ⟨cl, hcl, Prod.mk.inj heq⟩
  · generalize groups stmt = whole at hwh
    obtain ⟨front, gs⟩ := whole
    subst hwh
    cases gs <;> simp [clausesOf]

/-- Splitting a statement is a partition without loss, and rendering it is local: without
replacements it gives the statement, and with some the statement with just the slices of the
replaced clauses exchanged. -/
theorem split_partition (statement : List Char) :
    IsPartition statement (split statement) ∧ (split statement).render (fun _ => none) = statement ∧
      ∀ replacement, (split statement).render replacement =
        exchange replacement (split statement).clauses statement := by
  have hrender : ∀ replacement, (split statement).render replacement =
      exchange replacement (split statement).clauses statement := by
    intro replacement
    have hexchange := exchange_clausesOf replacement (groups statement).2
      (textOf (groups statement).1) 0
    rw [textOf_groups] at hexchange
    rw [split_eq_groups, Statement.render, exchange, hexchange]
  refine ⟨isPartition_split statement, ?_, hrender⟩
  rw [hrender, exchange]
  induction (split statement).clauses.zipIdx <;> simp_all

end GraphApi.Cypher
