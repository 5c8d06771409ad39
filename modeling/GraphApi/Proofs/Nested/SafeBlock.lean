import GraphApi.Nested.Block
import GraphApi.Proofs.Cypher.Outline
import GraphApi.Proofs.Cypher.Range

/-!
# Blocks of self-contained statements

The statement of a block stands as it is between the brackets of the block. If it is self-contained,
the block is one clause wherever it stands (`hasClauses_texts`), and between its brackets come its
own clauses, one for each nested block, and the `RETURN` (`Block.IsSafe.outline_body`).
-/

namespace GraphApi.Nested

open Cypher List Scan Block Text Keyword

variable {name : Name} {block : Block} {mode : Mode} {blocks : List Block} {rest : Chars}
  {clauses : List (Keyword × Chars)}

/-! ## Safe blocks -/

def IsPlainText (text : String) : Prop := ∀ c ∈ text.toList, isPlain c

instance (text : String) : Decidable (IsPlainText text) :=
  decidable_of_iff (text.toList.all isPlain) all_eq_true

lemma IsPlainText.append {fst snd : String} (h1 : IsPlainText fst) (h2 : IsPlainText snd) :
    IsPlainText (fst ++ snd) := by
  intro c hc
  rw [String.toList_append] at hc
  rcases mem_append.mp hc with hc | hc
  · exact h1 c hc
  · exact h2 c hc

lemma IsPlainText.of_isName (hn : IsName name) : IsPlainText name := fun c hc =>
  isPlain_of_isNameChar (hn.2 c hc)

def IsResultName (name : Name) : Prop :=
  ∃ rest, name.toList = '_' :: rest ∧ ∀ c ∈ rest, isNameChar c

/-- The unwind clauses of the block are plain, its statement is self-contained, the name of its
result cannot be taken for a keyword, and the same holds for the blocks nested in it. -/
inductive Block.IsSafe : Block → Prop
  | subquery {unwinding stmt : String} {result : Name} {inner : List Block}
      (hunwinding : IsPlainText unwinding) (hstmt : SelfContained stmt.toList)
      (hresult : IsResultName result) (hinner : ∀ block ∈ inner, block.IsSafe) :
      Block.IsSafe (.subquery unwinding stmt result inner)

def Block.body : Block → String
  | .subquery unwinding stmt result inner => bodyText unwinding stmt (Block.texts inner) result

def Block.own : Block → String
  | .subquery unwinding stmt _ _ => "\n  WITH *\n  " ++ unwinding ++ "\n  " ++ stmt

def Block.inner : Block → List Block
  | .subquery _ _ _ inner => inner

def Block.returning : Block → String
  | .subquery _ _ result _ => "RETURN COUNT(*) AS " ++ result

def Block.clause (block : Block) : Keyword × Chars :=
  (.call, ("CALL \x7b" ++ block.body ++ "\x7d").toList)

def Block.lastClause (block : Block) : Keyword × Chars := (.returning, block.returning.toList)

lemma Block.text_toList (block : Block) : block.text.toList = '\n' :: block.clause.2 := by
  obtain ⟨unwinding, stmt, res, inner⟩ := block
  have hca : "\nCALL \x7b".toList = '\n' :: "CALL \x7b".toList := by decide
  simp only [text, subqueryText, clause, body, String.toList_append, hca, cons_append]

lemma Block.body_toList (block : Block) : block.body.toList = block.own.toList ++
    ((texts block.inner).toList ++ '\n' :: ' ' :: ' ' :: (block.returning.toList ++ ['\n'])) := by
  obtain ⟨unwinding, stmt, res, inner⟩ := block
  have hre : "\n  RETURN COUNT(*) AS ".toList =
      '\n' :: ' ' :: ' ' :: "RETURN COUNT(*) AS ".toList := by
    decide +kernel
  have hl : "\n".toList = ['\n'] := by decide
  unfold body bodyText own Block.inner returning
  -- the texts are taken as they are, so that nothing looks into their characters
  generalize "\n  WITH *\n  " = start, "\n  " = middle
  generalize "\n  RETURN COUNT(*) AS " = return', "RETURN COUNT(*) AS " = word at hre ⊢
  generalize "\n" = line at hl ⊢
  simp only [String.toList_append, hre, hl, append_assoc, cons_append]

/-! ## Runs over blocks -/

lemma Block.IsSafe.run_own (h : block.IsSafe) :
    ∃ mode : Mode, mode.isSettled ∧ (mk .code 0).run block.own.toList = some ⟨mode, 0⟩ := by
  cases h with
  | @subquery unwinding stmt res inner hun hsm _ _ =>
    obtain ⟨mode, hmo, hrun⟩ := selfContained_iff_run.mp hsm
    have hst : IsPlainText ("\n  WITH *\n  " ++ unwinding ++ "\n  ") :=
      ((by decide : IsPlainText "\n  WITH *\n  ").append hun).append (by decide)
    refine ⟨mode, hmo, ?_⟩
    calc (mk .code 0).run (Block.subquery unwinding stmt res inner).own.toList
        = (mk .code 0).run (("\n  WITH *\n  " ++ unwinding ++ "\n  ").toList ++ stmt.toList) := by
          rw [own, String.toList_append]
      _ = (mk .code 0).run stmt.toList := run_plain_append hst 0 _
      _ = some ⟨mode, 0⟩ := hrun

lemma Block.run_text (hb : (mk .code 0).run block.body.toList = some ⟨.code, 0⟩)
    (hmo : mode.isSettled) (depth : Nat) :
    (mk mode depth).run block.text.toList = some ⟨.code, depth⟩ := by
  have hca : IsPlainText "CALL " := by decide
  have hop : (mk .code depth).run ['\x7b'] = some ⟨.code, depth + 1⟩ := rfl
  have hcs : (mk .code (0 + (depth + 1))).run ['\x7d'] = some ⟨.code, depth⟩ := by
    simp [run, step, stepCode, isQuote, isOpening, isClosing]
  have hin := run_add hb (depth + 1)
  have hcl : block.clause.2 = "CALL ".toList ++ (['\x7b'] ++ (block.body.toList ++ ['\x7d'])) := by
    have hw : "CALL \x7b".toList = "CALL ".toList ++ ['\x7b'] := by decide
    have hl : "\x7d".toList = ['\x7d'] := by decide
    simp only [clause, String.toList_append, hw, hl, append_assoc]
  rw [text_toList, hcl, run_newline hmo, run_plain_append hca, run_append_of_run hop,
    ← Nat.zero_add (depth + 1), run_append_of_run hin, hcs]

lemma Block.run_texts (hbo : ∀ block ∈ blocks, (mk .code 0).run block.body.toList = some ⟨.code, 0⟩)
    (hmo : mode.isSettled) (depth : Nat) : ∃ last : Mode, last.isSettled ∧
      (mk mode depth).run (texts blocks).toList = some ⟨last, depth⟩ := by
  induction blocks generalizing mode with
  | nil => exact ⟨mode, hmo, rfl⟩
  | cons block rest ih =>
    have h1 := run_text (hbo block mem_cons_self) hmo depth
    cases rest with
    | nil => exact ⟨.code, rfl, h1⟩
    | cons next os =>
      obtain ⟨last, hl, hr⟩ := ih (forall_mem_cons.mp hbo).2 (rfl : Mode.code.isSettled)
      refine ⟨last, hl, ?_⟩
      have hli : "\n".toList = ['\n'] := by decide
      rw [texts, String.toList_append, String.toList_append, append_assoc, run_append_of_run h1,
        hli, singleton_append, run_newline rfl, hr]

lemma Block.IsSafe.run_body (h : block.IsSafe) :
    (mk .code 0).run block.body.toList = some ⟨.code, 0⟩ := by
  induction h with
  | @subquery unwinding stmt res inner hun hst hres hin ih =>
    obtain ⟨mode, hmo, hown⟩ := (IsSafe.subquery hun hst hres hin).run_own
    have hbo : ∀ block ∈ (Block.subquery unwinding stmt res inner).inner,
        (mk .code 0).run block.body.toList = some ⟨.code, 0⟩ := ih
    obtain ⟨last, hl, hne⟩ := run_texts hbo hmo 0
    obtain ⟨rest, hn, hr⟩ := hres
    -- a comment at the end of the statement ends before the blocks or before the clause that returns
    have hp : ∀ c ∈ res.toList ++ ['\n'], isPlain c := by
      intro c hc
      rw [hn, cons_append, mem_cons, mem_append, mem_singleton] at hc
      rcases hc with rfl | hc | rfl
      · decide
      · exact isPlain_of_isNameChar (hr c hc)
      · decide
    have hco : (mk .code 0).run "RETURN COUNT(*) AS ".toList = some ⟨.code, 0⟩ := by decide +kernel
    have hre : (mk .code 0).run (("RETURN COUNT(*) AS " ++ res).toList ++ ['\n']) =
        some ⟨.code, 0⟩ := by
      rw [String.toList_append, append_assoc, run_append_of_run hco, run_plain hp]
    rw [body_toList, run_append_of_run hown, run_append_of_run hne, run_newline hl,
      run_plain_cons (by decide), run_plain_cons (by decide)]
    exact hre

lemma Block.IsSafe.selfContained_body (h : block.IsSafe) : SelfContained block.body.toList :=
  selfContained_iff_run.mpr ⟨.code, rfl, h.run_body⟩

lemma Block.getLast?_body (block : Block) : block.body.toList.getLast? = some '\n' := by
  rw [body_toList]
  simp [getLast?_append, getLast?_cons]

/-! ## The clauses of blocks -/

lemma clause_eq (block : Block) : block.clause.2 = "CALL".toList ++
    ' ' :: '\x7b' :: (block.body.toList ++ ['\x7d']) := by
  have hw : "CALL \x7b".toList = "CALL".toList ++ [' ', '\x7b'] := by decide
  have hl : "\x7d".toList = ['\x7d'] := by decide
  simp only [clause, String.toList_append, hw, hl, append_assoc, cons_append, nil_append]

lemma pieces_clause (h : block.IsSafe) (rest : Chars) :
    pieces (block.clause.2 ++ rest) = ⟨.name, call.word.toList⟩ ::
    (⟨.other, [' ']⟩ :: ⟨.opening, ['\x7b']⟩ :: (pieces block.body.toList ++
      [⟨.closing, ['\x7d']⟩]) ++ pieces rest) := by
  have hw : call.word.toList = "CALL".toList := rfl
  have hca : IsName "CALL" := by decide
  rw [clause_eq, hw, append_assoc, cons_append, cons_append, append_assoc, singleton_append,
    pieces_word hca.toList_ne_nil hca.2 (endsName_cons (by decide) _),
    pieces_other (by decide) (by decide),
    pieces_opening (by decide), pieces_append h.selfContained_body.1 block.getLast?_body,
    pieces_closing (by decide)]
  simp

lemma Block.IsSafe.hasClauses (h : block.IsSafe)
    (hr : HasClauses rest clauses) :
    HasClauses (block.text.toList ++ rest) (block.clause :: clauses) := by
  have hsi : Silent (⟨.other, [' ']⟩ :: ⟨.opening, ['\x7b']⟩ :: (pieces block.body.toList ++
      [⟨.closing, ['\x7d']⟩])) :=
    (Silent.other (by decide)).append (.bracketed h.selfContained_body.2 (by decide))
  have hcl := HasClauses.clause rfl hsi (pieces_clause h rest) hr
  have ht : call.word.toList ++ textOf (⟨.other, [' ']⟩ :: ⟨.opening, ['\x7b']⟩ ::
      (pieces block.body.toList ++ [⟨.closing, ['\x7d']⟩])) = block.clause.2 := by
    rw [clause_eq]
    simp [textOf_pieces]
    rfl
  have hso : Text.EndsSolid block.clause.2 := by
    intro c hc
    have hend : block.clause.2 = ("CALL".toList ++ ' ' :: '\x7b' :: block.body.toList) ++
        ['\x7d'] := by
      rw [clause_eq, append_assoc, cons_append, cons_append]
    rw [hend, getLast?_concat] at hc
    cases hc
    decide
  rw [ht, trimEnd_eq_self hso] at hcl
  rw [text_toList]
  exact hcl.blank (.inl rfl)

/-- Safe blocks are one clause each, whatever follows. -/
theorem hasClauses_texts (hbl : ∀ block ∈ blocks, block.IsSafe) (hr : HasClauses rest clauses) :
    HasClauses ((texts blocks).toList ++ rest) (blocks.map clause ++ clauses) := by
  induction blocks with
  | nil => exact hr
  | cons block os ih =>
    have hos := ih (forall_mem_cons.mp hbl).2
    have hb := hbl block mem_cons_self
    cases os with
    | nil => exact hb.hasClauses hr
    | cons next more =>
      have hl : "\n".toList = ['\n'] := by decide
      rw [texts, String.toList_append, String.toList_append, hl, append_assoc, append_assoc,
        singleton_append]
      exact hb.hasClauses (hos.blank (.inl rfl))

lemma IsResultName.isName (h : IsResultName name) : IsName name := by
  obtain ⟨rest, hn, hr⟩ := h
  constructor
  · rintro rfl
    cases hn
  · intro c hc
    rw [hn] at hc
    rcases mem_cons.mp hc with rfl | hc
    · decide
    · exact hr c hc

lemma IsResultName.silent (h : IsResultName name) : Silent [⟨.name, name.toList⟩] := by
  refine .word h.isName.2 ?_
  obtain ⟨rest, hn, _⟩ := h
  have hcap : upperChars ('_' :: rest) = '_' :: upperChars rest := rfl
  have hst : ∀ kw ∈ Keyword.all, kw.word.toList.head? ≠ some '_' := by decide
  rw [hn, ofCapitals?, find?_eq_none]
  intro kw hkw heq
  apply hst kw hkw
  rw [eq_of_beq heq, hcap]
  rfl

def returningPieces (name : Name) : List Piece :=
  [⟨.other, [' ']⟩, ⟨.name, "COUNT".toList⟩, ⟨.opening, ['(']⟩, ⟨.other, ['*']⟩, ⟨.closing, [')']⟩,
    ⟨.other, [' ']⟩,
    ⟨.name, "AS".toList⟩, ⟨.other, [' ']⟩, ⟨.name, name.toList⟩, ⟨.other, ['\n']⟩]

lemma pieces_returning (h : IsResultName name) :
    pieces (("RETURN COUNT(*) AS " ++ name).toList ++ ['\n']) =
    ⟨.name, returning.word.toList⟩ :: (returningPieces name ++ pieces []) := by
  have hws : "RETURN COUNT(*) AS ".toList = "RETURN".toList ++
      ' ' :: ("COUNT".toList ++ '(' :: '*' :: ')' :: ' ' ::
      ("AS".toList ++ [' '])) := by decide +kernel
  have ht : ("RETURN COUNT(*) AS " ++ name).toList ++ ['\n'] = "RETURN".toList ++
      ' ' :: ("COUNT".toList ++
      '(' :: '*' :: ')' :: ' ' :: ("AS".toList ++ ' ' :: (name.toList ++ '\n' :: []))) := by
    rw [String.toList_append, hws]
    simp only [append_assoc, cons_append, nil_append]
  have hre : IsName "RETURN" := by decide
  have hco : IsName "COUNT" := by decide
  have has : IsName "AS" := by decide
  rw [ht, pieces_word hre.toList_ne_nil hre.2 (endsName_cons (by decide) _),
    pieces_other (by decide) (by decide),
    pieces_word hco.toList_ne_nil hco.2 (endsName_cons (by decide) _), pieces_opening (by decide),
    pieces_other (by decide) (by decide), pieces_closing (by decide),
    pieces_other (by decide) (by decide),
    pieces_word has.toList_ne_nil has.2 (endsName_cons (by decide) _),
    pieces_other (by decide) (by decide),
    pieces_word h.isName.toList_ne_nil h.isName.2 (endsName_cons (by decide) _),
    pieces_other (by decide) (by decide)]
  rfl

lemma silent_returningPieces (h : IsResultName name) : Silent (returningPieces name) := by
  have hbl : Silent [⟨.other, [' ']⟩] := .other (by decide)
  have hco : Silent [⟨.name, "COUNT".toList⟩] := .word (by decide : IsName "COUNT").2 (by decide)
  have hst : Silent (⟨.opening, ['(']⟩ :: ([⟨.other, ['*']⟩] ++ [⟨.closing, [')']⟩])) :=
    .bracketed rfl (by decide)
  have has : Silent [⟨.name, "AS".toList⟩] := .word (by decide : IsName "AS").2 (by decide)
  have hl : Silent [⟨.other, ['\n']⟩] := .other (by decide)
  have hn := hbl.append (h.silent.append hl)
  exact hbl.append (hco.append (hst.append (hbl.append (has.append hn))))

lemma hasClauses_returning (h : IsResultName name) :
    HasClauses (("RETURN COUNT(*) AS " ++ name).toList ++ ['\n'])
    [(.returning, ("RETURN COUNT(*) AS " ++ name).toList)] := by
  have hps := pieces_returning h
  have hcl := HasClauses.clause rfl (silent_returningPieces h) hps .nil
  have ht := congrArg textOf hps
  rw [textOf_pieces, textOf_cons, pieces, append_nil] at ht
  have hso : Text.EndsSolid ("RETURN COUNT(*) AS " ++ name).toList := by
    intro c hc
    have hl := getLast?_eq_some_getLast h.isName.toList_ne_nil
    rw [String.toList_append, getLast?_append, hl, Option.some_or] at hc
    cases hc
    exact isBlank_eq_false (h.isName.2 _ (getLast_mem _))
  have hli : IsBlanks ['\n'] := all_eq_true.mp (by decide)
  rwa [← ht, trimEnd_append_blanks _ hli, trimEnd_eq_self hso] at hcl

lemma exists_newline_texts (blocks : List Block) (rest : Chars) :
    ∃ tail, (texts blocks).toList ++ '\n' :: rest = '\n' :: tail := by
  cases blocks with
  | nil => exact ⟨rest, rfl⟩
  | cons block os =>
    cases os with
    | nil => exact ⟨_, by rw [texts, text_toList, cons_append]⟩
    | cons next more =>
      exact ⟨_, by rw [texts, String.toList_append, String.toList_append, text_toList, cons_append,
        cons_append, cons_append]⟩

/-- Between the brackets of a safe block stand its statement, the inner blocks and the count. -/
theorem Block.IsSafe.outline_body (h : block.IsSafe) : outline block.body.toList =
    outline (block.own.toList ++ ['\n']) ++ (block.inner.map clause ++ [block.lastClause]) := by
  obtain ⟨mode, hmo, hown⟩ := h.run_own
  have hsl : SelfContained block.own.toList := selfContained_iff_run.mpr ⟨mode, hmo, hown⟩
  have hr : HasClauses ((texts block.inner).toList ++
      '\n' :: ' ' :: ' ' :: (block.returning.toList ++ ['\n']))
      (block.inner.map clause ++ [block.lastClause]) := by
    cases h with
    | subquery _ _ hres hin =>
      have hre := ((hasClauses_returning hres).blank (.inr rfl)).blank (.inr rfl)
      exact hasClauses_texts hin (hre.blank (.inl rfl))
  obtain ⟨tail, hta⟩ := exists_newline_texts block.inner
    (' ' :: ' ' :: (block.returning.toList ++ ['\n']))
  rw [hta] at hr
  rw [body_toList, hta]
  exact outline_append hsl hr

end GraphApi.Nested
