import GraphApi.Cypher.Projection
import GraphApi.Proofs.Cypher.Group

/-!
# Statements with a variable threaded through

A clause of which a variable is threaded through is read as the old one, since only plain characters
are put in where code is read (`run_withProjection`); so a self-contained statement stays
self-contained (`SelfContained.threadName`).
-/

namespace GraphApi.Text

open List
open Cypher (IsBlanks)

variable {s : Chars} {c : Char}

/-! ## Blanks at the ends -/

lemma trimStart_append (s : Chars) : ∃ bs, IsBlanks bs ∧ s = bs ++ trimStart s :=
  ⟨s.takeWhile isBlank, fun c hc => all_eq_true.mp all_takeWhile c hc,
    takeWhile_append_dropWhile.symm⟩

lemma trimEnd_append (s : Chars) : ∃ bs, IsBlanks bs ∧ s = trimEnd s ++ bs := by
  obtain ⟨bs, hbl, hsp⟩ := trimStart_append s.reverse
  refine ⟨bs.reverse, fun c hc => hbl c (mem_reverse.mp hc), ?_⟩
  rw [trimEnd, ← reverse_append]
  exact reverse_eq_iff.mp hsp

def EndsSolid (s : Chars) : Prop := ∀ c, s.getLast? = some c → isBlank c = false

lemma trimEnd_eq_self (h : EndsSolid s) : trimEnd s = s := by
  have hhe : s.reverse.dropWhile isBlank = s.reverse := by
    cases hre : s.reverse with
    | nil => rfl
    | cons c rest =>
      have hc : isBlank c = false := h c (by rw [← head?_reverse, hre]; rfl)
      simp [hc]
  rw [trimEnd, hhe, reverse_reverse]

lemma endsSolid_trimEnd (s : Chars) : EndsSolid (trimEnd s) := by
  intro c hc
  rw [trimEnd, getLast?_reverse] at hc
  have hhe := head?_dropWhile_not isBlank s.reverse
  rw [hc] at hhe
  simpa using hhe

lemma EndsSolid.eq_nil {bs : Chars} (h : EndsSolid (s ++ bs)) (hbl : IsBlanks bs) : bs = [] := by
  rcases eq_nil_or_concat bs with hnil | ⟨front, c, rfl⟩
  · exact hnil
  · have hso := h c (by simp)
    rw [hbl c (by simp)] at hso
    cases hso

lemma trimEnd_append_blanks (s : Chars) {bs : Chars} (h : IsBlanks bs) :
    trimEnd (s ++ bs) = trimEnd s := by
  rw [trimEnd, reverse_append, dropWhile_append_of_pos fun c hc => h c (mem_reverse.mp hc)]
  rfl

lemma trimEnd_append_of_solid {front : Chars} (hfr : EndsSolid front) (s : Chars) :
    trimEnd (front ++ s) = front ++ trimEnd s := by
  obtain ⟨bs, hbl, hsp⟩ := trimEnd_append s
  have hso : EndsSolid (front ++ trimEnd s) := by
    intro c hc
    cases hend : (trimEnd s).getLast? with
    | none => exact hfr c (by simpa [hend] using hc)
    | some d => exact endsSolid_trimEnd s c (by simpa [hend] using hc)
  calc trimEnd (front ++ s) = trimEnd ((front ++ trimEnd s) ++ bs) := by rw [append_assoc, ← hsp]
    _ = trimEnd (front ++ trimEnd s) := trimEnd_append_blanks _ hbl
    _ = front ++ trimEnd s := trimEnd_eq_self hso

lemma trim_eq_trimStart (h : EndsSolid s) : trim s = trimStart s := by
  refine trimEnd_eq_self fun c hc => h c ?_
  obtain ⟨bs, _, hsp⟩ := trimStart_append s
  rw [hsp, getLast?_append, hc]
  rfl

lemma trimStart_eq_nil (h : IsBlanks s) : trimStart s = [] := by
  rw [trimStart, ← append_nil s, dropWhile_append_of_pos h, dropWhile_nil]

lemma trim_trimEnd (s : Chars) : trim (trimEnd s) = trim s := by
  obtain ⟨bs, hbl, hsp⟩ := trimEnd_append s
  obtain ⟨lead, hle, hst⟩ := trimStart_append (trimEnd s)
  by_cases hem : trimStart (trimEnd s) = []
  · -- nothing but blanks
    have hall : IsBlanks s := by
      intro c hc
      rw [hsp, hst, hem, append_nil] at hc
      exact (mem_append.mp hc).elim (hle c) (hbl c)
    rw [trim, trim, hem, trimStart_eq_nil hall]
  · have hfr : trimStart s = trimStart (trimEnd s) ++ bs := by
      have hap : trimStart (trimEnd s ++ bs) = trimStart (trimEnd s) ++ bs := by
        rw [trimStart, dropWhile_append, if_neg (by simpa [trimStart] using hem)]
        rfl
      rwa [← hsp] at hap
    rw [trim, trim, hfr, trimEnd_append_blanks _ hbl]

lemma trim_drop_trimEnd (s : Chars) (count : Nat) :
    trim ((trimEnd s).drop count) = trim (s.drop count) := by
  obtain ⟨bs, hbl, hsp⟩ := trimEnd_append s
  have hdr : IsBlanks (bs.drop (count - (trimEnd s).length)) :=
    fun c hc => hbl c (mem_of_mem_drop hc)
  have happ : s.drop count = (trimEnd s).drop count ++ bs.drop (count - (trimEnd s).length) := by
    rw [← drop_append, ← hsp]
  rw [happ, ← trim_trimEnd (_ ++ _), trimEnd_append_blanks _ hdr, trim_trimEnd]

/-! ## Letters and their capitals -/

def withLetters : Chars := ['W', 'I', 'T', 'H']

lemma mem_of_mem_upperChar {capitals : Chars} (h : upperChars s = capitals) {d : Char} (hc : c ∈ s)
    (hd : d ∈ upperChar c) : d ∈ capitals :=
  h ▸ mem_flatMap.mpr ⟨c, hc, hd⟩

lemma length_upperChar (h : ∀ d ∈ upperChar c, d ∈ withLetters) : (upperChar c).length = 1 := by
  unfold upperChar at h ⊢
  split
  · rfl
  next has =>
    rw [if_neg has] at h
    split
    · rename_i codes hlo
      -- a letter with several capitals has one among them that is not in the word
      have ho : upperExpansions.all fun e => e.2.any fun code => Char.ofNat code ∉ withLetters := by
        decide +kernel
      obtain ⟨front, back, hta, _⟩ := lookup_eq_some_iff.mp hlo
      have he : (c.toNat, codes) ∈ upperExpansions := by
        rw [hta]
        simp
      obtain ⟨code, hco, hnot⟩ := any_eq_true.mp (all_eq_true.mp ho _ he)
      rw [hlo] at h
      exact absurd (h _ (mem_map_of_mem hco)) (by simpa using hnot)
    · rfl

lemma length_of_upperChars (h : upperChars s = withLetters) : s.length = 4 := by
  have hle : s.map (fun c => (upperChar c).length) = s.map fun _ => 1 :=
    map_congr_left fun c hc => length_upperChar fun d hd => mem_of_mem_upperChar h hc hd
  have hlen := congrArg length h
  rw [upperChars, length_flatMap, hle, map_const', sum_replicate_nat] at hlen
  simpa [withLetters] using hlen

lemma isBlank_eq_false_of_upperChar (h : ∀ d ∈ upperChar c, d ∈ withLetters) :
    isBlank c = false := by
  have hco : blankCodes.all fun code => (upperChar (Char.ofNat code)).any fun d =>
      d ∉ withLetters := by
    decide +kernel
  cases hbl : isBlank c with
  | false => rfl
  | true =>
    have hcd := all_eq_true.mp hco c.toNat (by simpa [isBlank] using hbl)
    rw [Char.ofNat_toNat] at hcd
    obtain ⟨d, hd, hnot⟩ := any_eq_true.mp hcd
    exact absurd (h d hd) (by simpa using hnot)

end GraphApi.Text

namespace GraphApi.Cypher

open List Text Scan

variable {c : Char} {s word name proj stmt : Chars} {mode : Mode}
  {repl : Nat → Option Chars} {place : Nat} {cl : Clause} {rest : List Clause}

/-! ## Words that are read as code -/

lemma isPlain_of_upperChar (h : ∀ d ∈ upperChar c, isPlain d) : isPlain c := by
  cases hp : isPlain c with
  | true => rfl
  | false =>
    have hsp : c ∈ ['\x27', '\x22', '\x60', '/', '(', '[', '\x7b', ')', ']', '\x7d'] := by
      simp only [isPlain, isQuote, isOpening, isClosing] at hp
      simp only [mem_cons, not_mem_nil]
      grind
    have hno : ['\x27', '\x22', '\x60', '/', '(', '[', '\x7b', ')', ']', '\x7d'].all fun d =>
        !(upperChar d).all isPlain := by decide
    have hso := all_eq_true.mp hno c hsp
    rw [all_eq_true.mpr h] at hso
    cases hso

lemma run_plain_append (hs : ∀ c ∈ s, isPlain c) (depth : Nat) (rest : Chars) :
    (mk .code depth).run (s ++ rest) = (mk .code depth).run rest :=
  run_append_of_run (run_plain hs depth) rest

lemma run_plain_cons (hc : isPlain c) (depth : Nat) (rest : Chars) :
    (mk .code depth).run (c :: rest) = (mk .code depth).run rest :=
  run_plain_append (s := [c]) (by simpa using hc) depth rest

lemma run_trimStart (s : Chars) (depth : Nat) (rest : Chars) :
    (mk .code depth).run (trimStart s ++ rest) = (mk .code depth).run (s ++ rest) := by
  obtain ⟨bs, hbl, hsp⟩ := trimStart_append s
  have hp : ∀ c ∈ bs, isPlain c := fun c hc => (isPlain_of_isBlank (hbl c hc)).1
  calc (mk .code depth).run (trimStart s ++ rest)
      = (mk .code depth).run (bs ++ (trimStart s ++ rest)) := (run_plain_append hp depth _).symm
    _ = (mk .code depth).run (s ++ rest) := by rw [← append_assoc, ← hsp]

/-! ## Adding a projection -/

lemma run_addToProjections (hpr : ∀ c ∈ proj, isPlain c) (projs : Chars) (depth : Nat)
    (rest : Chars) : (mk .code depth).run (addToProjections projs proj ++ rest) =
      (mk .code depth).run (projs ++ rest) := by
  have hsi : isPlain '*' ∧ isPlain ',' ∧ isPlain ' ' := by decide
  have hst : ∀ tail, (mk .code depth).run ('*' :: ',' :: ' ' :: (proj ++ tail)) =
      (mk .code depth).run tail := by
    intro tail
    rw [run_plain_cons hsi.1, run_plain_cons hsi.2.1, run_plain_cons hsi.2.2, run_plain_append hpr]
  unfold addToProjections
  split
  · exact run_plain_append hpr depth rest
  next os =>
    have hos : (mk .code depth).run ('*' :: os ++ rest) =
        (mk .code depth).run (trimStart os ++ rest) := by
      rw [cons_append, run_plain_cons hsi.1, run_trimStart]
    rw [hos]
    dsimp only
    split
    next hnil =>
      rw [hnil]
      simpa using hst rest
    next tail hco =>
      rw [hco]
      simpa using hst (',' :: (tail ++ rest))
    · have hbl := hst (' ' :: (trimStart os ++ rest))
      rw [run_plain_cons hsi.2.2] at hbl
      simpa using hbl
  · rw [append_assoc, run_plain_append hpr, cons_append, cons_append,
      run_plain_cons hsi.2.1, run_plain_cons hsi.2.2]

def IsWith (word : Chars) : Prop := Text.upperChars word = withLetters

lemma IsWith.ne_nil (h : IsWith word) : word ≠ [] := by
  rintro rfl
  cases h

lemma IsWith.upperChar (h : IsWith word) (hc : c ∈ word) :
    ∀ d ∈ upperChar c, d ∈ withLetters := fun _ hd => mem_of_mem_upperChar h hc hd

lemma IsWith.isPlain (h : IsWith word) (hc : c ∈ word) : isPlain c := by
  have hle : ∀ d ∈ withLetters, Cypher.isPlain d := all_eq_true.mp (by decide)
  exact isPlain_of_upperChar fun d hd => hle d (h.upperChar hc d hd)

lemma IsWith.ne_star (h : IsWith word) (hc : c ∈ word) : c ≠ '*' := by
  rintro rfl
  have hst : '*' ∈ Text.upperChar '*' := by decide
  have ho : '*' ∉ withLetters := by decide
  exact ho (h.upperChar hc '*' hst)

lemma IsWith.endsSolid (h : IsWith word) : EndsSolid word := fun _ hc =>
  isBlank_eq_false_of_upperChar (h.upperChar (mem_of_getLast? hc))

lemma IsWith.run (h : IsWith word) (hmo : mode = .code ∨ mode = .slash) (depth : Nat)
    (rest : Chars) : (mk mode depth).run (word ++ rest) = (mk .code depth).run rest := by
  obtain ⟨c, os, rfl⟩ := exists_cons_of_ne_nil h.ne_nil
  have hc := h.isPlain mem_cons_self
  have hsl : c ≠ '/' := by
    rintro rfl
    revert hc
    decide
  have hre : mode.Ready (c :: (os ++ rest)) := by
    rcases hmo with rfl | rfl
    · exact .inl rfl
    · exact .inr (.inl ⟨rfl, by simpa using hsl, by simpa using h.ne_star mem_cons_self⟩)
  rw [cons_append, run, hre.step, stepCode_plain hc, Option.bind_some]
  exact run_plain_append (fun d hd => h.isPlain (mem_cons_of_mem _ hd)) depth rest

/-! ## Clauses that are not cut short -/

/-- Whether a text in front is seen as the word that removes repeated rows. -/
def seesDistinct (projections : Chars) : Bool :=
  Text.upperChars (projections.take 8) == distinctWord &&
    !((projections[8]?.map Text.isAlphanumeric).getD false)

/-- Whether a text is that word with a ligature, with nothing after it. -/
def isCutShort (projections : Chars) : Bool :=
  Text.upperChars (projections.take 8) == distinctWord && projections.length < 8

lemma startsDistinct_eq (projs : Chars) : startsDistinct projs =
    if isCutShort projs then .error .shortText else .ok (seesDistinct projs) := by
  unfold startsDistinct isCutShort seesDistinct
  by_cases hcap : upperChars (projs.take 8) = distinctWord
  · rcases Nat.lt_trichotomy projs.length 8 with hlt | heq | hgt
    · have hne : projs.length ≠ 8 := by omega
      simp [hcap, hlt, hne, getElem?_eq_none (Nat.le_of_lt hlt)]
    · simp [hcap, heq]
    · have hne : projs.length ≠ 8 ∧ ¬ projs.length < 8 := by omega
      simp [hcap, hne, getElem?_eq_getElem hgt]
  · simp [hcap]

/-- A clause with one more projection, as long as it is not cut short. -/
def withProjection (clause projection : Chars) : Chars :=
  extendClause (seesDistinct (trim (clause.drop 4))) clause projection

lemma addProjection_eq (clause proj : Chars) : addProjection clause proj =
    if isCutShort (trim (clause.drop 4)) then .error .shortText
      else .ok (withProjection clause proj) := by
  rw [addProjection, trim_drop_trimEnd, startsDistinct_eq]
  split <;> rfl

lemma isPlain_of_seesDistinct {projs : Chars} (h : seesDistinct projs) :
    ∀ c ∈ projs.take 8, isPlain c := by
  intro c hc
  rw [seesDistinct, Bool.and_eq_true, beq_iff_eq] at h
  have hle : ∀ d ∈ distinctWord, isPlain d := all_eq_true.mp (by decide)
  exact isPlain_of_upperChar fun d hd => hle d (mem_of_mem_upperChar h.1 hc hd)

/-- The word that removes repeated rows, if a list of projections starts with it. -/
def distinctPart (projections : Chars) : Chars :=
  if seesDistinct projections then projections.take 8 ++ [' '] else []

def withoutDistinct (projections : Chars) : Chars :=
  if seesDistinct projections then Text.trimStart (projections.drop 8) else projections

lemma withProjection_append (hw : IsWith word) (rest proj : Chars) :
    ∃ bs trail, (∀ c ∈ bs, isBlank c) ∧ (∀ c ∈ trail, isBlank c) ∧
      rest = bs ++ (trim rest ++ trail) ∧ (trail = [] → EndsSolid rest) ∧
      withProjection (word ++ rest) proj = if projects (withoutDistinct (trim rest)) proj
      then word ++ rest else withStart ++ (distinctPart (trim rest) ++
          (addToProjections (withoutDistinct (trim rest)) proj ++ trail)) := by
  obtain ⟨trail, htr, hr⟩ := trimEnd_append rest
  obtain ⟨bs, hbl, hst⟩ := trimStart_append (trimEnd rest)
  have hso : trim (trimEnd rest) = trimStart (trimEnd rest) :=
    trim_eq_trimStart (endsSolid_trimEnd rest)
  have hsr : trimEnd (word ++ rest) = word ++ trimEnd rest :=
    trimEnd_append_of_solid hw.endsSolid rest
  have hdr : (word ++ rest).drop (word ++ trimEnd rest).length = trail := by
    have hcl : word ++ rest = (word ++ trimEnd rest) ++ trail := by rw [append_assoc, ← hr]
    rw [hcl, drop_left]
  have hwh : trim ((word ++ rest).drop 4) = trim rest := by
    rw [← length_of_upperChars hw, drop_left]
  refine ⟨bs, trail, hbl, htr, ?_, ?_, ?_⟩
  · rw [← trim_trimEnd, hso, ← append_assoc, ← hst, ← hr]
  · rintro rfl
    rw [hr, append_nil]
    exact endsSolid_trimEnd rest
  · unfold withProjection extendClause
    dsimp only
    rw [trim_drop_trimEnd, hsr, hdr, hwh, append_assoc, append_assoc]
    rfl

/-- A clause with a projection added is scanned like the clause itself. -/
theorem run_withProjection {rest : Chars} (hw : IsWith word) (hpr : ∀ c ∈ proj, isPlain c)
    (hmo : mode = .code ∨ mode = .slash) (depth : Nat) :
    (mk mode depth).run (withProjection (word ++ rest) proj) =
      (mk mode depth).run (word ++ rest) := by
  have hst : IsWith withLetters := by
    unfold IsWith
    decide
  have hnew : ∀ tail, (mk mode depth).run (withStart ++ tail) = (mk .code depth).run tail := by
    intro tail
    have hle : withStart = withLetters ++ [' '] := by decide
    rw [hle, append_assoc, hst.run hmo, singleton_append, run_plain_cons (by decide)]
  obtain ⟨bs, trail, hbl, _, hr, _, hadd⟩ := withProjection_append hw rest proj
  have hp : ∀ c ∈ bs, isPlain c := fun c hc => (isPlain_of_isBlank (hbl c hc)).1
  have hbc : (mk mode depth).run (word ++ rest) = (mk .code depth).run (trim rest ++ trail) := by
    rw [hw.run hmo, ← run_plain_append hp depth (trim rest ++ trail), ← hr]
  rw [hadd]
  split
  · rfl
  rw [hnew, hbc, distinctPart, withoutDistinct]
  split
  · rename_i hds
    -- the projection is added after the word that makes the rows distinct
    have hle := isPlain_of_seesDistinct hds
    rw [append_assoc, run_plain_append hle, singleton_append, run_plain_cons (by decide),
      run_addToProjections hpr, run_trimStart, ← run_plain_append hle, ← append_assoc,
      take_append_drop]
  · rw [nil_append, run_addToProjections hpr]

/-! ## Threading a variable -/

/-- Clauses are replaced at most by ones with another projection, of which a property holds. -/
def Adds (allowed : Chars → Prop) (replacement : Nat → Option Chars) (place : Nat)
    (clauses : List Clause) : Prop :=
  ∀ i clause, clauses[i]? = some clause → replacement (place + i) = none ∨
    clause.keyword = .projecting ∧ ∃ projection, allowed projection ∧
      replacement (place + i) = some (withProjection clause.text projection)

lemma Adds.tail {allowed : Chars → Prop} (h : Adds allowed repl place (cl :: rest)) :
    Adds allowed repl (place + 1) rest := by
  intro i other ho
  have hnx := h (i + 1) other (by simpa using ho)
  rwa [show place + (i + 1) = place + 1 + i by omega] at hnx

abbrev AddsPlain := Adds fun projection => ∀ c ∈ projection, isPlain c

lemma run_changed (had : AddsPlain repl place (cl :: rest)) {os : Chars}
    (ht : cl.text = word ++ os) (hw : upperChars word = cl.keyword.word.toList)
    (hmo : mode = .code ∨ mode = .slash) :
    (mk mode 0).run ((repl place).getD cl.text) = (mk mode 0).run cl.text := by
  rcases had 0 cl rfl with hno | ⟨hkw, proj, hpr, hso⟩
  · rw [Nat.add_zero] at hno
    rw [hno, Option.getD_none]
  · rw [Nat.add_zero] at hso
    rw [hso, Option.getD_some, ht]
    refine run_withProjection ?_ hpr hmo 0
    rwa [hkw] at hw

/-- Changed clauses are read as the clauses they come from. The run over each clause comes to where
the next one can be read as code. -/
lemma run_renderFrom {gs : List (Keyword × List Piece)} (hps : pieces s = gs.flatMap (·.2))
    (hre : mode.Ready s)
    (hst : ∀ group ∈ gs, ∃ piece rest, group.2 = piece :: rest ∧ piece.text ≠ [] ∧
      upperChars piece.text = group.1.word.toList)
      (hdp : ∀ group ∈ gs, depthAfter? 0 group.2 = some 0) {off : Nat}
    (had : AddsPlain repl place (clausesOf off gs)) :
    (mk mode 0).run (renderFrom repl place (clausesOf off gs)) = (mk mode 0).run s := by
  induction gs generalizing s mode place off with
  | nil =>
    have hnil : s = [] := by rw [← textOf_pieces s, hps]; rfl
    rw [hnil, clausesOf, renderFrom]
  | cons fst rest ih =>
    obtain ⟨kw, group⟩ := fst
    obtain ⟨piece, os, rfl, hne, hw⟩ := hst _ mem_cons_self
    have hs : s = textOf (piece :: os) ++ textOf (rest.flatMap (·.2)) := by
      rw [← textOf_append, ← textOf_pieces s, hps, flatMap_cons]
    -- the keyword is not empty, so the clause does not stand in a line comment
    have hmo : mode = .code ∨ mode = .slash := by
      rcases hre with hco | ⟨hsl, _⟩ | ⟨_, hnil⟩
      · exact .inl hco
      · exact .inr hsl
      · rw [hnil] at hs
        simp [hne] at hs
    rw [clausesOf] at had ⊢
    have h1 := run_changed had (textOf_cons piece os) hw hmo
    rw [renderFrom, run_append, h1, ← run_append]
    cases hr : rest with
    | nil =>
      rw [hs, hr]
      rfl
    | cons snd more =>
      -- the run over this clause stops where the first piece of the next one starts
      rw [← hr]
      obtain ⟨next, after, hg, _⟩ := hst snd (by simp [hr])
      have hpi' : pieces s = (piece :: os) ++ next :: (after ++ more.flatMap (·.2)) := by
        rw [hps, hr, flatMap_cons, flatMap_cons, hg]
        rfl
      obtain ⟨last, tail, hta, hbc, hre', hrun⟩ := run_of_pieces_eq hre hpi' (hdp _ mem_cons_self)
      have hbc' : pieces tail = rest.flatMap (·.2) := by
        rw [hbc, hr, flatMap_cons, hg, cons_append]
      have ht := ih hbc' hre' (forall_mem_cons.mp hst).2
        (forall_mem_cons.mp hdp).2 had.tail
      have hg : (mk mode 0).run (textOf (piece :: os)) = some ⟨last, 0⟩ := hrun
      rw [run_append_of_run hg, ht, hta, run_append_of_run hrun]

lemma SelfContained.run_render (h : SelfContained stmt)
    (had : AddsPlain repl 0 (split stmt).clauses) :
    (mk .code 0).run ((split stmt).render repl) = (mk .code 0).run stmt := by
  have hps : (groups stmt).1 ++ (groups stmt).2.flatMap (·.2) = pieces stmt :=
    groupFrom_flatten _ _ _ _
  obtain ⟨hfr, hdp⟩ := depthAfter?_groupFrom [] none h.2
  have hst : ∀ group ∈ (groups stmt).2, ∃ piece rest, group.2 = piece :: rest ∧ piece.text ≠ [] ∧
      upperChars piece.text = group.1.word.toList := by
    rintro ⟨kw, group⟩ hg
    obtain ⟨piece, rest, rfl, _, hw⟩ := exists_piece_of_mem_groupFrom hg
    have hm : piece ∈ pieces stmt := by
      rw [← hps]
      exact mem_append_right _ (mem_flatMap.mpr ⟨_, hg, mem_cons_self⟩)
    exact ⟨piece, rest, rfl, text_ne_nil_of_mem_pieces hm, hw⟩
  rw [split_eq_groups] at had ⊢
  rw [Statement.render]
  cases hgr : (groups stmt).2 with
  | nil =>
    -- without clauses the statement is its preamble
    rw [hgr] at hps
    rw [clausesOf, renderFrom, append_nil]
    congr 1
    simpa [textOf_pieces] using congrArg textOf hps
  | cons fst rest =>
    obtain ⟨piece, os, h1, _⟩ := hst fst (by simp [hgr])
    have hpi' : pieces stmt = (groups stmt).1 ++ piece :: (os ++ rest.flatMap (·.2)) := by
      rw [← hps, hgr, flatMap_cons, h1, cons_append]
    obtain ⟨last, tail, hta, hbc, hre, hrun⟩ := run_of_pieces_eq (.inl rfl) hpi' hfr
    have hbc' : pieces tail = (groups stmt).2.flatMap (·.2) := by
      rw [hbc, hgr, flatMap_cons, h1, cons_append]
    have ht := run_renderFrom hbc' hre hst hdp had
    rw [hgr] at ht
    have hpr : (mk .code 0).run (textOf (groups stmt).1) = some ⟨last, 0⟩ := hrun
    have hwh : (mk .code 0).run stmt = (mk last 0).run tail := by
      rw [hta, run_append_of_run hrun]
    rwa [run_append_of_run hpr, hwh]

/-- The clauses of a kind, each with its place. -/
def placed (keyword : Keyword) (place : Nat) (clauses : List Clause) : List (Clause × Nat) :=
  (clauses.zipIdx place).filter (·.1.keyword = keyword)

lemma mem_placed {kw : Keyword} {clauses : List Clause} {e : Clause × Nat} :
    e ∈ placed kw 0 clauses ↔ clauses[e.2]? = some e.1 ∧ e.1.keyword = kw := by
  simp [placed, mem_zipIdx_iff_getElem?]

lemma placesFrom_eq (kw : Keyword) (place : Nat) (clauses : List Clause) :
    placesFrom kw place clauses = (placed kw place clauses).map (·.2) := by
  induction clauses generalizing place with
  | nil => rfl
  | cons cl rest ih =>
    rw [placesFrom, ih, placed, placed, zipIdx_cons, filter_cons]
    split <;> simp_all

lemma mem_of_threadOf {places : List Nat}
    (h : (threadOf places).importAt = some place ∨ (threadOf places).exportAt = some place) :
    place ∈ places := by
  unfold threadOf at h
  split at h
  · simp at h
  · split at h <;> simp_all
  next fst snd rest =>
    rcases h with him | hexp
    · have heq : fst = place := by simpa using him
      simp [heq]
    · have heq : (snd :: rest).getLast (by simp) = place := by simpa using hexp
      exact mem_cons_of_mem _ (heq ▸ getLast_mem _)

lemma isPlain_exportProjection (hn : ∀ c ∈ name, isPlain c) :
    ∀ c ∈ exportProjection name, isPlain c := by
  have has : ∀ c ∈ " AS _".toList, isPlain c := all_eq_true.mp (by decide)
  intro c hc
  rw [exportProjection, append_assoc, mem_append, mem_append] at hc
  rcases hc with hc | hc | hc
  · exact hn c hc
  · exact has c hc
  · exact hn c hc

/-- The changed texts of clauses that are not cut short. -/
def Statement.changes (statement : Statement) (name : Chars) (place : Nat) : Option Chars :=
  if statement.thread.exportAt = some place then
    some (withProjection (statement.textAt place) (exportProjection name))
  else if statement.thread.importAt = some place then
    some (withProjection (statement.textAt place) name)
  else none

/-- Whether a clause is cut short. -/
def Statement.isCutAt (statement : Statement) (place : Nat) : Bool :=
  isCutShort (trim ((statement.textAt place).drop 4))

/-- Whether the clauses that bring a variable in and hand it on can be read. -/
def Statement.isReadable (statement : Statement) : Bool :=
  !(statement.thread.importAt.any statement.isCutAt ||
    statement.thread.exportAt.any statement.isCutAt)

lemma mapM_addProjection (parsed : Statement) (at? : Option Nat) (proj : Chars) :
    (at?.mapM fun place => addProjection (parsed.textAt place) proj) =
      if at?.any parsed.isCutAt then .error .shortText
      else .ok (at?.map fun place => withProjection (parsed.textAt place) proj) := by
  cases at? with
  | none => rfl
  | some place =>
    rw [Option.mapM_some, addProjection_eq, Option.any_some, Statement.isCutAt]
    split <;> rfl

lemma threaded_eq (parsed : Statement) (name : Chars) : parsed.threaded parsed.thread name =
    if parsed.isReadable then .ok (parsed.changes name) else .error .shortText := by
  rw [Statement.threaded, mapM_addProjection, mapM_addProjection, Statement.isReadable]
  cases parsed.thread.importAt.any parsed.isCutAt with
  | true => rfl
  | false =>
    cases parsed.thread.exportAt.any parsed.isCutAt with
    | true => rfl
    | false =>
      refine congrArg Except.ok (funext fun place => ?_)
      unfold Statement.changes
      split
      next hexp => rw [hexp, Option.map_some]
      · split
        next him => rw [him, Option.map_some]
        · rfl

/-- A statement with a variable threaded through clauses that are not cut short. -/
def threadedName (statement name : Chars) (hasNested : Bool) : Chars :=
  renderThread statement name hasNested ((split statement).changes name)

lemma threadName_eq (stmt name : Chars) (hasNested : Bool) : threadName stmt name hasNested =
    if (split stmt).isReadable then .ok (threadedName stmt name hasNested)
      else .error .shortText := by
  rw [threadName, threaded_eq]
  split <;> rfl

lemma changes_cases (parsed : Statement) (name : Chars) {i : Nat}
    (hcl : parsed.clauses[i]? = some cl) : parsed.changes name i = none ∨ cl.keyword = .projecting ∧
      (parsed.changes name i = some (withProjection cl.text (exportProjection name)) ∨
        parsed.changes name i = some (withProjection cl.text name)) := by
  have hkw : i ∈ parsed.placesOf .projecting → cl.keyword = .projecting := by
    intro hpl
    rw [Statement.placesOf, placesFrom_eq] at hpl
    obtain ⟨found, hm, rfl⟩ := mem_map.mp hpl
    obtain ⟨hfo, hkw⟩ := mem_placed.mp hm
    rwa [Option.some.inj (hcl.symm.trans hfo)]
  have ht : parsed.textAt i = cl.text := by simp [Statement.textAt, hcl]
  rw [Statement.changes, ht]
  split
  next hexp => exact .inr ⟨hkw (mem_of_threadOf (.inr hexp)), .inl rfl⟩
  · split
    next him => exact .inr ⟨hkw (mem_of_threadOf (.inl him)), .inr rfl⟩
    · exact .inl rfl

lemma adds_changes (parsed : Statement) {allowed : Chars → Prop}
    (hexp : allowed (exportProjection name))
    (him : allowed name) : Adds allowed (parsed.changes name) 0 parsed.clauses := by
  intro i cl hcl
  rw [Nat.zero_add]
  rcases changes_cases parsed name hcl with hno | ⟨hkw, heq | heq⟩
  · exact .inl hno
  · exact .inr ⟨hkw, _, hexp, heq⟩
  · exact .inr ⟨hkw, _, him, heq⟩

lemma run_trimEnd {last : Mode} {depth stop : Nat} (hl : last.isSettled)
    (hrun : (mk .code depth).run s = some ⟨last, stop⟩) :
    ∃ mode : Mode, mode.isSettled ∧ (mk .code depth).run (trimEnd s) = some ⟨mode, stop⟩ := by
  obtain ⟨bs, hbl, hsp⟩ := trimEnd_append s
  rw [hsp, run_append] at hrun
  cases hmi : (mk .code depth).run (trimEnd s) with
  | none => simp [hmi] at hrun
  | some middle =>
    rw [hmi, Option.bind_some] at hrun
    have hpr : (mk .code depth).IsProper := by simp [IsProper]
    obtain ⟨hset, hdp⟩ := settled_of_run_blanks (hpr.run hmi) hbl hrun hl
    exact ⟨middle.mode, hset, by rw [hdp]⟩

lemma SelfContained.newline (h : SelfContained s) : SelfContained (s ++ ['\n']) := by
  obtain ⟨last, hl, hrun⟩ := selfContained_iff_run.mp h
  refine selfContained_iff_run.mpr ⟨.code, rfl, ?_⟩
  rw [run_append_of_run hrun, run_newline hl, run]

/-- Threading a plain name leaves a statement self-contained. -/
theorem SelfContained.threadName {hasNested : Bool} {threaded : Chars} (h : SelfContained stmt)
    (hn : ∀ c ∈ name, isPlain c) (hth : threadName stmt name hasNested = .ok threaded) :
    SelfContained threaded := by
  obtain rfl : threadedName stmt name hasNested = threaded := by
    rw [threadName_eq] at hth
    split at hth <;> cases hth
    rfl
  have hrun := h.run_render (adds_changes (split stmt) (isPlain_exportProjection hn) hn)
  obtain ⟨last, hl, hse⟩ := selfContained_iff_run.mp h
  rw [hse] at hrun
  unfold threadedName renderThread
  split
  · -- the clause that is added starts on a line of its own, after any line comment
    obtain ⟨mode, hmo, htr⟩ := run_trimEnd hl hrun
    refine selfContained_iff_run.mpr ⟨.code, rfl, ?_⟩
    have hcl : "\nWITH *, ".toList = '\n' :: "WITH *, ".toList := by decide
    have hp : ∀ c ∈ "WITH *, ".toList, isPlain c := all_eq_true.mp (by decide)
    rw [append_assoc, run_append_of_run htr, hcl, cons_append, run_newline hmo,
      run_plain_append hp, run_plain (isPlain_exportProjection hn)]
  · exact selfContained_iff_run.mpr ⟨last, hl, hrun⟩

end GraphApi.Cypher
