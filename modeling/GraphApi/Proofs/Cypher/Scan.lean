import GraphApi.Cypher.Piece
import Mathlib.Tactic.Lemma

/-!
# Self-contained texts

In a self-contained text quoted texts, quoted names and block comments are closed and brackets
match. It may end inside a line comment. That can be told by reading it character by character
(`selfContained_iff_run`), so texts can be put together and taken apart by their runs.
-/

namespace GraphApi.Cypher

open List Piece And

variable {c quote : Char} {s rest text : Chars} {depth stop : Nat} {scan : Scan} {mode : Mode}

/-! ## Pieces that are closed -/

def closesQuote (quote : Char) : Chars → Bool
  | [] => false
  | c :: rest =>
    if c = '\\' ∧ quote ≠ '\x60' then
      match rest with
      | [] => false
      | _ :: others => closesQuote quote others
    else c = quote || closesQuote quote rest

def closesBlock : Chars → Bool
  | [] => false
  | '*' :: '/' :: _ => true
  | _ :: rest => closesBlock rest

/-- Whether a piece is complete. A line comment is, also without the end of its line. -/
def Piece.isClosed (piece : Piece) : Bool :=
  match piece.kind, piece.text with
  | .quoted, quote :: body => closesQuote quote body
  | .comment, '/' :: '*' :: body => closesBlock body
  | _, _ => true

/-- The number of open brackets after some pieces, unless a closing bracket has no partner. -/
def depthAfter? : Nat → List Piece → Option Nat
  | depth, [] => some depth
  | depth, piece :: rest =>
    if piece.kind = .closing ∧ depth = 0 then none else depthAfter? (piece.depthAfter depth) rest

/-- Every piece of the text is closed, and its brackets match. -/
def SelfContained (text : Chars) : Prop :=
  (∀ piece ∈ pieces text, piece.isClosed) ∧ depthAfter? 0 (pieces text) = some 0

/-! ## Reading character by character -/

/-- What a text is in after some characters: code, code after a slash, a quoted text, a quoted text
after a backslash, a line comment, a block comment, or a block comment after a star. -/
inductive Mode where
  | code | slash | quoted (quote : Char) | escaped (quote : Char) | line | block | star
deriving DecidableEq, Repr

/-- The mode after some characters, and the number of open brackets. -/
structure Scan where
  mode : Mode
  depth : Nat
deriving DecidableEq, Repr

/-- Reads a character in code. A closing bracket needs a partner. -/
def stepCode (depth : Nat) (c : Char) : Option Scan :=
  if isQuote c then some ⟨.quoted c, depth⟩
  else if c = '/' then some ⟨.slash, depth⟩
  else if isOpening c then some ⟨.code, depth + 1⟩
  else if isClosing c then if depth = 0 then none else some ⟨.code, depth - 1⟩
  else some ⟨.code, depth⟩

def Scan.step (scan : Scan) (c : Char) : Option Scan :=
  match scan.mode with
  | .code => stepCode scan.depth c
  | .slash =>
    if c = '/' then some ⟨.line, scan.depth⟩
    else if c = '*' then some ⟨.block, scan.depth⟩
    else stepCode scan.depth c
  | .quoted quote =>
    if c = '\\' ∧ quote ≠ '\x60' then some ⟨.escaped quote, scan.depth⟩
    else if c = quote then some ⟨.code, scan.depth⟩
    else some scan
  | .escaped quote => some ⟨.quoted quote, scan.depth⟩
  | .line => if c = '\n' then some ⟨.code, scan.depth⟩ else some scan
  | .block => if c = '*' then some ⟨.star, scan.depth⟩ else some scan
  | .star =>
    if c = '/' then some ⟨.code, scan.depth⟩
    else if c = '*' then some scan
    else some ⟨.block, scan.depth⟩

def Scan.run (scan : Scan) : Chars → Option Scan
  | [] => some scan
  | c :: rest => (scan.step c).bind fun next => next.run rest

/-- The mode is one in which a self-contained text may end. -/
def Mode.isSettled : Mode → Bool
  | .code | .slash | .line => true
  | _ => false

open Scan

lemma Scan.run_append (scan : Scan) (fst snd : Chars) :
    scan.run (fst ++ snd) = (scan.run fst).bind fun middle => middle.run snd := by
  induction fst generalizing scan with
  | nil => rfl
  | cons c rest ih =>
    rw [cons_append, run, run]
    cases scan.step c with
    | none => rfl
    | some next => exact ih next

lemma Scan.run_append_of_run {middle : Scan} {fst : Chars} (h1 : scan.run fst = some middle)
    (snd : Chars) : scan.run (fst ++ snd) = middle.run snd := by
  rw [run_append, h1, Option.bind_some]

/-! ## First characters -/

/-- A character that stands for itself in code: no quotation mark, slash or bracket. -/
def isPlain (c : Char) : Bool := !isQuote c && c ≠ '/' && !isOpening c && !isClosing c

lemma char_cases (c : Char) : isQuote c ∨ c = '/' ∨ isOpening c ∨ isClosing c ∨ isPlain c := by
  by_cases hq : isQuote c
  · exact .inl hq
  · by_cases hsl : c = '/'
    · exact .inr (.inl hsl)
    · by_cases hop : isOpening c
      · exact .inr (.inr (.inl hop))
      · by_cases hclo : isClosing c
        · exact .inr (.inr (.inr (.inl hclo)))
        · exact .inr (.inr (.inr (.inr (by simp [isPlain, hq, hsl, hop, hclo]))))

lemma slash_cases (rest : Chars) :
    (∃ s, rest = '/' :: s) ∨ (∃ s, rest = '*' :: s) ∨
      (rest.head? ≠ some '/' ∧ rest.head? ≠ some '*') := by
  cases rest with
  | nil => exact .inr (.inr (by simp))
  | cons d s =>
    by_cases hl : d = '/'
    · exact .inl ⟨s, by rw [hl]⟩
    · by_cases hb : d = '*'
      · exact .inr (.inl ⟨s, by rw [hb]⟩)
      · exact .inr (.inr (by simp [hl, hb]))

lemma Piece.next_quoted (h : isQuote c) (s : Chars) :
    next c s = (⟨.quoted, c :: (splitQuoted c s).1⟩, (splitQuoted c s).2) := by
  simp [next, h]

lemma Piece.next_line (s : Chars) :
    next '/' ('/' :: s) = (⟨.comment, '/' :: '/' :: (splitLine s).1⟩, (splitLine s).2) := by
  simp [next, isQuote, splitLine]

lemma Piece.next_block (s : Chars) :
    next '/' ('*' :: s) = (⟨.comment, '/' :: '*' :: (splitBlock s).1⟩, (splitBlock s).2) := by
  simp [next, isQuote]

lemma Piece.next_slash (h : s.head? ≠ some '/' ∧ s.head? ≠ some '*') :
    next '/' s = (⟨.other, ['/']⟩, s) := by
  cases s with
  | nil => simp [next, isQuote]
  | cons d rest =>
    have hd : d ≠ '/' ∧ d ≠ '*' := by simpa using h
    simp [next, isQuote, hd]

lemma isOpening_cases (h : isOpening c) : c = '(' ∨ c = '[' ∨ c = '\x7b' := by
  simpa [isOpening, or_assoc] using h

lemma isClosing_cases (h : isClosing c) : c = ')' ∨ c = ']' ∨ c = '\x7d' := by
  simpa [isClosing, or_assoc] using h

lemma Piece.next_opening (h : isOpening c) (s : Chars) : next c s = (⟨.opening, [c]⟩, s) := by
  rcases isOpening_cases h with rfl | rfl | rfl <;> simp [next, isQuote, isOpening]

lemma Piece.next_closing (h : isClosing c) (s : Chars) : next c s = (⟨.closing, [c]⟩, s) := by
  rcases isClosing_cases h with rfl | rfl | rfl <;> simp [next, isQuote, isOpening, isClosing]

lemma Piece.next_plain (h : isPlain c) (s : Chars) :
    next c s = if isNameChar c then (⟨.name, c :: s.takeWhile isNameChar⟩, s.dropWhile isNameChar)
      else (⟨.other, [c]⟩, s) := by
  simp only [isPlain, Bool.and_eq_true, Bool.not_eq_true', decide_eq_true_eq] at h
  obtain ⟨⟨⟨hq, hsl⟩, hop⟩, hclo⟩ := h
  simp [next, hq, hsl, hop, hclo]

lemma stepCode_quote (h : isQuote c) (depth : Nat) :
    stepCode depth c = some ⟨.quoted c, depth⟩ := by
  simp [stepCode, h]

lemma stepCode_slash (depth : Nat) : stepCode depth '/' = some ⟨.slash, depth⟩ := by
  simp [stepCode, isQuote]

lemma stepCode_opening (h : isOpening c) (depth : Nat) :
    stepCode depth c = some ⟨.code, depth + 1⟩ := by
  rcases isOpening_cases h with rfl | rfl | rfl <;> simp [stepCode, isQuote, isOpening]

lemma stepCode_closing (h : isClosing c) (depth : Nat) :
    stepCode depth c = if depth = 0 then none else some ⟨.code, depth - 1⟩ := by
  rcases isClosing_cases h with rfl | rfl | rfl <;> simp [stepCode, isQuote, isOpening, isClosing]

lemma stepCode_plain (h : isPlain c) (depth : Nat) : stepCode depth c = some ⟨.code, depth⟩ := by
  simp only [isPlain, Bool.and_eq_true, Bool.not_eq_true', decide_eq_true_eq] at h
  obtain ⟨⟨⟨hq, hsl⟩, hop⟩, hclo⟩ := h
  simp [stepCode, hq, hsl, hop, hclo]

lemma Scan.run_cons_eq_some {last : Scan}
    (h : scan.run (c :: rest) = some last) :
    ∃ next, scan.step c = some next ∧ next.run rest = some last :=
  Option.bind_eq_some_iff.mp h

/-! ## Runs over pieces -/

lemma ne_backslash_of_isQuote (h : isQuote quote) : quote ≠ '\\' := by
  rintro rfl
  revert h
  decide

lemma closesQuote_cons (hes : ¬ (c = '\\' ∧ quote ≠ '\x60')) (rest : Chars) :
    closesQuote quote (c :: rest) = (decide (c = quote) || closesQuote quote rest) := by
  cases rest <;> simp [closesQuote, hes]

/-- A quoted text is read up to its closing mark, or is all that is left. -/
lemma run_splitQuoted (hq : isQuote quote) (s : Chars) (depth : Nat) :
    (closesQuote quote (splitQuoted quote s).1 ∧
      (mk (.quoted quote) depth).run (splitQuoted quote s).1 = some ⟨.code, depth⟩) ∨
    (closesQuote quote (splitQuoted quote s).1 = false ∧ (splitQuoted quote s).2 = [] ∧
      ∃ mode : Mode, mode.isSettled = false ∧
        (mk (.quoted quote) depth).run (splitQuoted quote s).1 = some ⟨mode, depth⟩) := by
  have hne := ne_backslash_of_isQuote hq
  fun_induction splitQuoted quote s with
  | case1 => exact .inr ⟨rfl, rfl, .quoted quote, rfl, rfl⟩
  | case2 c =>
    by_cases hc : c = quote
    · subst hc
      exact .inl ⟨by simp [closesQuote, hne], by simp [run, step, hne]⟩
    · refine .inr ⟨?_, rfl, ?_⟩
      · by_cases hes : c = '\\' ∧ quote ≠ '\x60' <;> simp [closesQuote, hes, hc]
      · by_cases hes : c = '\\' ∧ quote ≠ '\x60'
        · exact ⟨.escaped quote, rfl, by simp [run, step, hes]⟩
        · exact ⟨.quoted quote, rfl, by simp [run, step, hes, hc]⟩
  | case3 c d rest hes body after hsp ih =>
    rw [hsp] at ih
    simpa [closesQuote, hes, run, step] using ih
  | case4 d rest hes => exact .inl ⟨by simp [closesQuote, hne], by simp [run, step, hne]⟩
  | case5 c d rest hes hc body after hsp ih =>
    rw [hsp] at ih
    rw [closesQuote_cons hes]
    simpa [hes, hc, run, step] using ih

lemma run_splitLine (s : Chars) (depth : Nat) :
    (mk .line depth).run (splitLine s).1 = some ⟨.code, depth⟩ ∨
    ((splitLine s).2 = [] ∧ (mk .line depth).run (splitLine s).1 = some ⟨.line, depth⟩) := by
  fun_induction splitLine s with
  | case1 => exact .inr ⟨rfl, rfl⟩
  | case2 rest => exact .inl (by simp [run, step])
  | case3 c rest hc body after hsp ih =>
    rw [hsp] at ih
    simpa [run, step, hc] using ih

lemma run_star (hne : s ≠ []) (hsl : s.head? ≠ some '/') (depth : Nat) :
    (mk .star depth).run s = (mk .block depth).run s := by
  cases s with
  | nil => exact absurd rfl hne
  | cons c rest =>
    have hc : c ≠ '/' := by simpa using hsl
    by_cases hst : c = '*' <;> simp [run, step, hc, hst]

lemma closesBlock_cons (h : c = '*' → s.head? ≠ some '/') :
    closesBlock (c :: s) = closesBlock s := by
  rw [closesBlock]
  intro tail hc hs
  exact h hc (by simp [hs])

lemma head?_ne_of_splitBlock {body after : Chars} (h : ∀ tail, c = '*' → s = '/' :: tail → False)
    (hsp : splitBlock s = (body, after)) (hc : c = '*') : body.head? ≠ some '/' := by
  intro hsl
  obtain ⟨tail, rfl⟩ := head?_eq_some_iff.mp hsl
  have hap := splitBlock_append s
  rw [hsp] at hap
  exact h _ hc hap.symm

/-- A block comment is read up to its end, or is all that is left. -/
lemma run_splitBlock (s : Chars) (depth : Nat) : (closesBlock (splitBlock s).1 ∧
      (mk .block depth).run (splitBlock s).1 = some ⟨.code, depth⟩) ∨
    (closesBlock (splitBlock s).1 = false ∧ (splitBlock s).2 = [] ∧
      ∃ mode : Mode, mode.isSettled = false ∧ (mk .block depth).run (splitBlock s).1 =
        some ⟨mode, depth⟩) := by
  fun_induction splitBlock s with
  | case1 => exact .inr ⟨rfl, rfl, .block, rfl, rfl⟩
  | case2 rest => exact .inl ⟨rfl, rfl⟩
  | case3 c rest hend body after hsp ih =>
    rw [hsp] at ih
    have hhe := head?_ne_of_splitBlock hend hsp
    rw [closesBlock_cons hhe]
    by_cases hc : c = '*'
    · subst hc
      have hst : (mk .block depth).run ('*' :: body) = (mk .star depth).run body := by
        simp [run, step]
      rw [hst]
      cases hb : body with
      | nil =>
        -- the text ends after the star
        rw [hb] at ih
        rcases ih with ⟨hcl, _⟩ | ⟨_, ha, _⟩
        · cases hcl
        · exact .inr ⟨rfl, ha, .star, rfl, rfl⟩
      | cons d os =>
        rw [← hb, run_star (by simp [hb]) (hhe rfl)]
        exact ih
    · have hst : (mk .block depth).run (c :: body) = (mk .block depth).run body := by
        simp [run, step, hc]
      rw [hst]
      exact ih

lemma run_plain (h : ∀ c ∈ s, isPlain c) (depth : Nat) :
    (mk .code depth).run s = some ⟨.code, depth⟩ := by
  induction s with
  | nil => rfl
  | cons c rest ih =>
    have hst : (mk .code depth).step c = some ⟨.code, depth⟩ :=
      stepCode_plain (h c mem_cons_self) depth
    rw [run, hst, Option.bind_some]
    exact ih (forall_mem_cons.mp h).2

lemma ne_of_isNameChar {d : Char} (h : isNameChar c) (hd : isNameChar d = false) : c ≠ d := by
  rintro rfl
  simp [h] at hd

lemma isPlain_of_isNameChar (h : isNameChar c) : isPlain c := by
  have hne : ∀ d, isNameChar d = false → c ≠ d := fun d hd => ne_of_isNameChar h hd
  have hqu := intro (hne '\x27' (by decide))
    (intro (hne '\x22' (by decide)) (hne '\x60' (by decide)))
  have hop := intro (hne '(' (by decide)) (intro (hne '[' (by decide)) (hne '\x7b' (by decide)))
  have hclo := intro (hne ')' (by decide)) (intro (hne ']' (by decide)) (hne '\x7d' (by decide)))
  simp [isPlain, isQuote, isOpening, isClosing, hqu, hop, hclo, hne '/' (by decide)]

/-- The mode in which a text can be read as code from its start: a slash before it does not open a
comment with it, and only the empty text stands in a line comment. -/
def Mode.Ready (mode : Mode) (s : Chars) : Prop :=
  mode = .code ∨ (mode = .slash ∧ s.head? ≠ some '/' ∧ s.head? ≠ some '*') ∨ (mode = .line ∧ s = [])

lemma Mode.Ready.isSettled (h : mode.Ready s) : mode.isSettled := by
  rcases h with rfl | ⟨rfl, _⟩ | ⟨rfl, _⟩ <;> rfl

lemma Mode.Ready.step (h : mode.Ready (c :: rest)) (depth : Nat) :
    (mk mode depth).step c = stepCode depth c := by
  rcases h with rfl | ⟨rfl, hsl, hst⟩ | ⟨_, hnil⟩
  · rfl
  · have hc : c ≠ '/' ∧ c ≠ '*' := by simpa using intro hsl hst
    simp [step, hc]
  · simp at hnil

/-- What a run over the next piece does: it comes to where the rest can be read as code, or fails at
a closing bracket without a partner, or ends in a piece that is not closed. -/
inductive Piece.Outcome (scan : Scan) (piece : Piece) (after : Chars) : Prop
  | read {mode : Mode} (hclosed : piece.isClosed)
      (hbracket : ¬ (piece.kind = .closing ∧ scan.depth = 0)) (hready : mode.Ready after)
      (hrun : scan.run piece.text = some ⟨mode, piece.depthAfter scan.depth⟩)
  | unmatched (hclosed : piece.isClosed) (hbracket : piece.kind = .closing ∧ scan.depth = 0)
      (hrun : scan.run piece.text = none)
  | unclosed {mode : Mode} (hclosed : piece.isClosed = false) (hkind : piece.kind ≠ .closing)
      (hafter : after = []) (hmode : mode.isSettled = false)
      (hrun : scan.run piece.text = some ⟨mode, scan.depth⟩)

lemma Piece.outcome_quoted (hre : mode.Ready (c :: rest)) (hq : isQuote c) (depth : Nat) :
    Outcome ⟨mode, depth⟩ ⟨.quoted, c :: (splitQuoted c rest).1⟩ (splitQuoted c rest).2 := by
  have hrun : (Scan.mk mode depth).run (c :: (splitQuoted c rest).1) =
      (Scan.mk (.quoted c) depth).run (splitQuoted c rest).1 := by
    simp [run, hre.step, stepCode, hq]
  rcases run_splitQuoted hq rest depth with ⟨hcl, hco⟩ | ⟨hcl, ha, inner, hin, hend⟩
  · exact .read hcl (by simp) (.inl rfl) (hrun.trans hco)
  · exact .unclosed hcl (by simp) ha hin (hrun.trans hend)

lemma Piece.outcome_line (hre : mode.Ready ('/' :: '/' :: rest)) (depth : Nat) :
    Outcome ⟨mode, depth⟩ ⟨.comment, '/' :: '/' :: (splitLine rest).1⟩ (splitLine rest).2 := by
  have hrun : (Scan.mk mode depth).run ('/' :: '/' :: (splitLine rest).1) =
      (Scan.mk .line depth).run (splitLine rest).1 := by
    rw [run, hre.step, stepCode_slash]
    simp [Scan.run, Scan.step]
  rcases run_splitLine rest depth with hco | ⟨ha, hl⟩
  · exact .read rfl (by simp) (.inl rfl) (hrun.trans hco)
  · exact .read rfl (by simp) (.inr (.inr ⟨rfl, ha⟩)) (hrun.trans hl)

lemma Piece.outcome_block (hre : mode.Ready ('/' :: '*' :: rest)) (depth : Nat) :
    Outcome ⟨mode, depth⟩ ⟨.comment, '/' :: '*' :: (splitBlock rest).1⟩ (splitBlock rest).2 := by
  have hrun : (Scan.mk mode depth).run ('/' :: '*' :: (splitBlock rest).1) =
      (Scan.mk .block depth).run (splitBlock rest).1 := by
    rw [run, hre.step, stepCode_slash]
    simp [Scan.run, Scan.step]
  rcases run_splitBlock rest depth with ⟨hcl, hco⟩ | ⟨hcl, ha, inner, hin, hend⟩
  · exact .read hcl (by simp) (.inl rfl) (hrun.trans hco)
  · exact .unclosed hcl (by simp) ha hin (hrun.trans hend)

lemma Piece.outcome_next (hre : mode.Ready (c :: rest)) (depth : Nat) :
    Outcome ⟨mode, depth⟩ (next c rest).1 (next c rest).2 := by
  have hrun : ∀ body, (Scan.mk mode depth).run (c :: body) = (stepCode depth c).bind fun next =>
      next.run body := by
    intro body
    rw [run, hre.step]
  have hone : (Scan.mk mode depth).run [c] = stepCode depth c := by
    rw [hrun]
    cases stepCode depth c <;> rfl
  rcases char_cases c with hq | rfl | hop | hclo | hp
  · rw [next_quoted hq]
    exact outcome_quoted hre hq depth
  · rcases slash_cases rest with ⟨s, rfl⟩ | ⟨s, rfl⟩ | hne
    · exact outcome_line hre depth
    · exact outcome_block hre depth
    · -- a slash that opens no comment: the rest is read after the slash
      rw [next_slash hne]
      exact .read rfl (by simp) (.inr (.inl ⟨rfl, hne⟩)) (hone.trans (stepCode_slash depth))
  · rw [next_opening hop]
    exact .read rfl (by simp) (.inl rfl) (hone.trans (stepCode_opening hop depth))
  · -- a closing bracket is the only piece at which a run can fail
    rw [next_closing hclo]
    rw [stepCode_closing hclo] at hone
    by_cases hdp : depth = 0
    · rw [if_pos hdp] at hone
      exact .unmatched rfl ⟨rfl, hdp⟩ hone
    · rw [if_neg hdp] at hone
      exact .read rfl (by simp [hdp]) (.inl rfl) hone
  · rw [next_plain hp]
    split
    · -- a name is read over without leaving the code
      have hn : ∀ d ∈ rest.takeWhile isNameChar, isPlain d := fun d hd =>
        isPlain_of_isNameChar (all_eq_true.mp all_takeWhile d hd)
      refine .read rfl (by simp) (.inl rfl) ?_
      rw [hrun, stepCode_plain hp]
      exact run_plain hn depth
    · exact .read rfl (by simp) (.inl rfl) (hone.trans (stepCode_plain hp depth))

/-! ## Self-contained texts by their runs -/

lemma pieces_cons (c : Char) (rest : Chars) :
    pieces (c :: rest) = (next c rest).1 :: pieces (next c rest).2 := by
  rw [pieces]

/-- A text can be read exactly if its pieces are closed and its brackets have partners. -/
lemma exists_run_iff (hre : mode.Ready s) (depth stop : Nat) :
    (∃ last : Mode, last.isSettled ∧ (mk mode depth).run s = some ⟨last, stop⟩) ↔
      (∀ piece ∈ pieces s, piece.isClosed) ∧ depthAfter? depth (pieces s) = some stop := by
  fun_induction pieces s generalizing mode depth with
  | case1 =>
    constructor
    · rintro ⟨last, _, hrun⟩
      have hdp : depth = stop := by
        have heq := congrArg (Option.map Scan.depth) hrun
        simpa [run] using heq
      simp [depthAfter?, hdp]
    · rintro ⟨_, hdp⟩
      refine ⟨mode, hre.isSettled, ?_⟩
      have heq : depth = stop := by simpa [depthAfter?] using hdp
      rw [Scan.run, heq]
  | case2 c rest ih =>
    have ht := next_append c rest
    have hsp : (mk mode depth).run (c :: rest) =
        ((Scan.mk mode depth).run (next c rest).1.text).bind
        fun middle => middle.run (next c rest).2 := by
      rw [← Scan.run_append, ht]
    cases outcome_next hre depth with
    | read hcl hbr hre' hrun =>
      rw [hsp, hrun, Option.bind_some, depthAfter?, if_neg hbr, ih hre']
      simp [hcl]
    | unmatched hcl hbr hrun =>
      rw [hsp, hrun, depthAfter?, if_pos hbr]
      simp
    | unclosed hcl _ ha hmd hrun =>
      -- nothing follows, so both sides are false
      rw [hsp, hrun, ha]
      constructor
      · rintro ⟨last, hl, heq⟩
        have hmo := congrArg (Option.map Scan.mode) heq
        simp only [Option.bind_some, Scan.run, Option.map_some, Option.some.injEq] at hmo
        rw [← hmo, hmd] at hl
        simp at hl
      · rintro ⟨hall, _⟩
        have hp := hall _ mem_cons_self
        rw [hcl] at hp
        simp at hp

/-- A text is self-contained if reading it ends at depth zero in a settled mode. -/
theorem selfContained_iff_run :
    SelfContained text ↔ ∃ last : Mode, last.isSettled ∧ (mk .code 0).run text = some ⟨last, 0⟩ :=
  (exists_run_iff (.inl rfl) 0 0).symm

lemma selfContained_iff_any : SelfContained text ↔
    ((mk .code 0).run text).any (fun scan => scan.mode.isSettled && scan.depth == 0) := by
  rw [selfContained_iff_run, Option.any_eq_true]
  constructor
  · rintro ⟨last, hl, hrun⟩
    exact ⟨_, hrun, by simp [hl]⟩
  · rintro ⟨⟨last, depth⟩, hrun, hsc⟩
    obtain ⟨hl, rfl⟩ : last.isSettled ∧ depth = 0 := by simpa using hsc
    exact ⟨last, hl, hrun⟩

instance (text : Chars) : Decidable (SelfContained text) :=
  decidable_of_iff _ selfContained_iff_any.symm

/-- Reading can be stopped before any piece. -/
lemma run_of_pieces_eq (hre : mode.Ready s) {front back : List Piece} {piece : Piece}
    (hps : pieces s = front ++ piece :: back) (hdp : depthAfter? depth front = some stop) :
    ∃ (last : Mode) (rest : Chars), s = front.flatMap (·.text) ++ rest ∧
      pieces rest = piece :: back ∧
      last.Ready rest ∧ (mk mode depth).run (front.flatMap (·.text)) = some ⟨last, stop⟩ := by
  -- by induction on the pieces in front, since a piece is told only by the characters before it
  induction front generalizing mode s depth with
  | nil =>
    have heq : depth = stop := by simpa [depthAfter?] using hdp
    exact ⟨mode, s, rfl, hps, hre, by simp [run, heq]⟩
  | cons fst os ih =>
    cases s with
    | nil => simp [pieces] at hps
    | cons c rest =>
      rw [pieces_cons, cons_append] at hps
      obtain ⟨h1, hos⟩ := cons.inj hps
      have hout := outcome_next hre depth
      rw [h1] at hout
      cases hout with
      | read hcl hbr hre' hrun =>
        rw [depthAfter?, if_neg hbr] at hdp
        obtain ⟨last, rest', hsp, hbc, hre', hrun'⟩ := ih hre' hos hdp
        refine ⟨last, rest', ?_, hbc, hre', ?_⟩
        · rw [← next_append c rest, h1, hsp]
          simp
        · rwa [flatMap_cons, run_append_of_run hrun]
      | unmatched hcl hbr hrun =>
        rw [depthAfter?, if_pos hbr] at hdp
        cases hdp
      | unclosed hcl hk ha hmo hrun =>
        -- a piece that is not closed is the last one
        rw [ha] at hos
        simp [pieces] at hos

lemma stepCode_add {next : Scan} (h : stepCode depth c = some next) (more : Nat) :
    stepCode (depth + more) c = some ⟨next.mode, next.depth + more⟩ := by
  rcases char_cases c with hq | rfl | hop | hclo | hp
  · rw [stepCode_quote hq] at h ⊢
    cases h
    rfl
  · cases h
    rfl
  · rw [stepCode_opening hop] at h ⊢
    cases h
    simp only [Option.some.injEq, Scan.mk.injEq, true_and]
    omega
  · rw [stepCode_closing hclo] at h ⊢
    by_cases hdp : depth = 0
    · rw [if_pos hdp] at h
      cases h
    · rw [if_neg hdp] at h
      rw [if_neg (by omega)]
      cases h
      simp only [Option.some.injEq, Scan.mk.injEq, true_and]
      omega
  · rw [stepCode_plain hp] at h ⊢
    cases h
    rfl

lemma Scan.step_add {next : Scan} (h : (mk mode depth).step c = some next)
    (more : Nat) : (mk mode (depth + more)).step c = some ⟨next.mode, next.depth + more⟩ := by
  cases mode with
  | code => exact stepCode_add h more
  | slash =>
    simp only [step] at h ⊢
    by_cases hsl : c = '/'
    · rw [if_pos hsl] at h ⊢
      cases h
      rfl
    · rw [if_neg hsl] at h ⊢
      by_cases hst : c = '*'
      · rw [if_pos hst] at h ⊢
        cases h
        rfl
      · rw [if_neg hst] at h ⊢
        exact stepCode_add h more
  | escaped quote =>
    cases h
    rfl
  | _ =>
    -- the other modes do not look at the brackets
    simp only [step] at h ⊢
    repeat' split at h
    all_goals
      cases h
      simp_all

/-- Brackets around a text do not change how it is read. -/
lemma Scan.run_add {last : Mode} (h : (mk mode depth).run s = some ⟨last, stop⟩) (more : Nat) :
    (mk mode (depth + more)).run s = some ⟨last, stop + more⟩ := by
  induction s generalizing mode depth with
  | nil =>
    cases h
    rfl
  | cons c rest ih =>
    obtain ⟨next, hst, hr⟩ := run_cons_eq_some h
    rw [run, step_add hst, Option.bind_some]
    exact ih hr

/-! ## Blanks -/

lemma isPlain_of_isBlank (h : Text.isBlank c) : isPlain c ∧ c ≠ '*' ∧ c ≠ '\\' := by
  have hco : Text.blankCodes.all fun code =>
      isPlain (Char.ofNat code) && Char.ofNat code ≠ '*' && Char.ofNat code ≠ '\\' := by decide
  have hcd := all_eq_true.mp hco c.toNat (by simpa [Text.isBlank] using h)
  simpa [and_assoc] using hcd

lemma run_newline (hmo : mode.isSettled) (depth : Nat) (rest : Chars) :
    (mk mode depth).run ('\n' :: rest) = (mk .code depth).run rest := by
  have hp : stepCode depth '\n' = some ⟨.code, depth⟩ := stepCode_plain (by decide) depth
  cases mode with
  | code => simp [run, step, hp]
  | slash => simp [run, step, hp]
  | line => simp [run, step]
  | _ => cases hmo

/-- Quoted texts are opened by quotation marks only. -/
def Scan.IsProper (scan : Scan) : Prop :=
  ∀ quote, scan.mode = .quoted quote ∨ scan.mode = .escaped quote → isQuote quote

lemma isProper_stepCode {next : Scan} (h : stepCode depth c = some next) : next.IsProper := by
  rcases char_cases c with hq | rfl | hop | hclo | hp
  · rw [stepCode_quote hq] at h
    cases h
    simp [IsProper, hq]
  · cases h
    simp [IsProper]
  · rw [stepCode_opening hop] at h
    cases h
    simp [IsProper]
  · rw [stepCode_closing hclo] at h
    split at h
    · cases h
    · cases h
      simp [IsProper]
  · rw [stepCode_plain hp] at h
    cases h
    simp [IsProper]

lemma Scan.IsProper.step {next : Scan} (hpr : scan.IsProper) (h : scan.step c = some next) :
    next.IsProper := by
  obtain ⟨mode, depth⟩ := scan
  cases mode with
  | code => exact isProper_stepCode h
  | slash =>
    simp only [step] at h
    split at h
    · cases h
      simp [IsProper]
    · split at h
      · cases h
        simp [IsProper]
      · exact isProper_stepCode h
  | quoted quote =>
    have hq := hpr quote (.inl rfl)
    simp only [step] at h
    repeat' split at h
    all_goals
      cases h
      simp [IsProper, hq]
  | escaped quote =>
    have hq := hpr quote (.inr rfl)
    cases h
    simp [IsProper, hq]
  | _ =>
    simp only [step] at h
    repeat' split at h
    all_goals
      cases h
      simp [IsProper]

lemma Scan.IsProper.run {last : Scan} (hpr : scan.IsProper) (h : scan.run s = some last) :
    last.IsProper := by
  induction s generalizing scan with
  | nil =>
    cases h
    exact hpr
  | cons c rest ih =>
    obtain ⟨next, hst, hr⟩ := run_cons_eq_some h
    exact ih (hpr.step hst) hr

lemma settled_of_step_blank {next : Scan} (hpr : (mk mode depth).IsProper)
    (hc : Text.isBlank c) (hst : (mk mode depth).step c = some next)
    (hnx : next.mode.isSettled) : mode.isSettled ∧ next.depth = depth := by
  obtain ⟨hp, hsr, hba⟩ := isPlain_of_isBlank hc
  have hsl : c ≠ '/' := by
    rintro rfl
    revert hp
    decide
  have hco := stepCode_plain hp depth
  cases mode with
  | code =>
    have heq : next = ⟨.code, depth⟩ := by simpa [step, hco] using hst.symm
    simp [heq, Mode.isSettled]
  | slash =>
    have heq : next = ⟨.code, depth⟩ := by simpa [step, hco, hsl, hsr] using hst.symm
    simp [heq, Mode.isSettled]
  | line =>
    simp only [step] at hst
    split at hst <;> cases hst <;> simp [Mode.isSettled]
  | quoted quote =>
    -- a blank does not end a quoted text
    have hne : c ≠ quote := by
      rintro rfl
      have hq := hpr c (.inl rfl)
      simp [isPlain, hq] at hp
    have heq : next = ⟨.quoted quote, depth⟩ := by simpa [step, hba, hne] using hst.symm
    simp [heq, Mode.isSettled] at hnx
  | escaped quote =>
    cases hst
    cases hnx
  | block =>
    have heq : next = ⟨.block, depth⟩ := by simpa [step, hsr] using hst.symm
    simp [heq, Mode.isSettled] at hnx
  | star =>
    have heq : next = ⟨.block, depth⟩ := by simpa [step, hsl, hsr] using hst.symm
    simp [heq, Mode.isSettled] at hnx

/-- Blanks open and close nothing. -/
lemma settled_of_run_blanks {last : Mode} {bs : Chars} (hpr : (mk mode depth).IsProper)
    (hbl : ∀ c ∈ bs, Text.isBlank c) (hrun : (mk mode depth).run bs = some ⟨last, stop⟩)
    (hl : last.isSettled) : mode.isSettled ∧ stop = depth := by
  induction bs generalizing mode depth with
  | nil =>
    cases hrun
    exact ⟨hl, rfl⟩
  | cons c rest ih =>
    obtain ⟨next, hst, hr⟩ := run_cons_eq_some hrun
    obtain ⟨hnx, hsp⟩ := ih (hpr.step hst) (forall_mem_cons.mp hbl).2 hr
    obtain ⟨hmo, hdp⟩ := settled_of_step_blank hpr (hbl c mem_cons_self) hst hnx
    exact ⟨hmo, hsp.trans hdp⟩

end GraphApi.Cypher
