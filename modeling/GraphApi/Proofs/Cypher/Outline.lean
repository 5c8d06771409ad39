import GraphApi.Proofs.Cypher.Threading

/-!
# The clauses of texts that are put together

The outline of a statement is its clauses without the blanks at their ends. A self-contained text
followed by clauses on the next line keeps its outline (`outline_append`), and a keyword followed by
what starts no clause is one clause (`HasClauses.clause`).
-/

namespace GraphApi.Cypher

open List Piece Text

variable {text : Chars} {clauses : List (Keyword × Chars)} {c : Char}

def outline (stmt : Chars) : List (Keyword × Chars) :=
  (split stmt).clauses.map fun clause => (clause.keyword, trimEnd clause.text)

def outlineOf (gs : List (Keyword × List Piece)) : List (Keyword × Chars) :=
  gs.map fun group => (group.1, trimEnd (textOf group.2))

lemma outline_eq_outlineOf (stmt : Chars) : outline stmt = outlineOf (groups stmt).2 := by
  rw [outline, split_eq_groups]
  exact map_clausesOf (fun kw text => (kw, trimEnd text)) _ _

/-! ## One text after another -/

lemma groupFrom_append {depth stop : Nat} {front : List Piece}
    (hfr : depthAfter? depth front = some stop)
    (hne : ∀ piece ∈ front, piece.text ≠ []) (prev : Chars) (pre : Option Char) : ∃ prev', ∀ rest,
      IsBlanks (textOf (groupFrom prev' stop ((textOf front).getLast?.or pre) rest).1) →
      (∃ bs, IsBlanks bs ∧ textOf (groupFrom prev depth pre (front ++ rest)).1 =
        textOf (groupFrom prev depth pre front).1 ++ bs) ∧
      outlineOf (groupFrom prev depth pre (front ++ rest)).2 =
      outlineOf (groupFrom prev depth pre front).2 ++
          outlineOf (groupFrom prev' stop ((textOf front).getLast?.or pre) rest).2 := by
  induction front generalizing prev depth pre with
  | nil =>
    have heq : depth = stop := by simpa [depthAfter?] using hfr
    subst heq
    exact ⟨prev, fun rest hbn => ⟨⟨_, hbn, by simp [groupFrom]⟩, by simp [groupFrom, outlineOf]⟩⟩
  | cons piece os ih =>
    obtain ⟨_, hos⟩ := depthAfter?_cons hfr
    obtain ⟨prev', hr⟩ := ih hos (forall_mem_cons.mp hne).2
      (piece.wordAfter pre prev) piece.text.getLast?
    have hl : (textOf (piece :: os)).getLast?.or pre =
        (textOf os).getLast?.or piece.text.getLast? := by
      have hp := getLast?_eq_some_getLast (hne piece mem_cons_self)
      rw [textOf_cons, getLast?_append, hp]
      cases (textOf os).getLast? <;> rfl
    refine ⟨prev', fun rest hbn => ?_⟩
    rw [hl] at hbn ⊢
    obtain ⟨⟨bs, hbl, ht⟩, hou⟩ := hr rest hbn
    rw [cons_append]
    cases hst : piece.starts? depth pre prev with
    | none =>
      rw [groupFrom_of_none hst, groupFrom_of_none hst]
      exact ⟨⟨bs, hbl, by simp [ht]⟩, hou⟩
    | some kw =>
      -- the blanks before the groups of `rest` end the last group of `front`, where they are trimmed
      rw [groupFrom_of_some hst, groupFrom_of_some hst]
      refine ⟨⟨[], by simp [IsBlanks], rfl⟩, ?_⟩
      have htr := trimEnd_append_blanks (piece.text ++ textOf (groupFrom (piece.wordAfter pre prev)
        (piece.depthAfter depth) piece.text.getLast? os).1) hbl
      simp only [outlineOf, map_cons, textOf_cons, cons_append] at hou ⊢
      rw [hou, ht, ← append_assoc, htr]

/-- Where the text stands outside brackets and after no point or dollar sign, it has the given
clauses and only blanks before them. -/
def HasClauses (text : Chars) (clauses : List (Keyword × Chars)) : Prop :=
  ∀ prev before, isAccess before = false →
    (∀ c ∈ textOf (groupFrom prev 0 before (pieces text)).1, isBlank c) ∧
      outlineOf (groupFrom prev 0 before (pieces text)).2 = clauses

lemma HasClauses.outline_eq (h : HasClauses text clauses) : outline text = clauses := by
  rw [outline_eq_outlineOf]
  exact (h [] none rfl).2

lemma HasClauses.preamble (h : HasClauses text clauses) : IsBlanks (split text).preamble := by
  rw [split_eq_groups]
  exact (h [] none rfl).1

lemma HasClauses.nil : HasClauses [] [] := by
  intro prev pre _
  simp [pieces, groupFrom, outlineOf]

lemma starts?_eq_none_of_kind {piece : Piece} (hk : piece.kind ≠ .name) (depth : Nat)
    (pre : Option Char) (prev : Chars) : piece.starts? depth pre prev = none := by
  simp [starts?, word?, hk]

lemma groupFrom_other (hp : isPlain c) (hn : isNameChar c = false) (prev : Chars)
    (pre : Option Char) (text : Chars) : groupFrom prev 0 pre (pieces (c :: text)) =
      (⟨.other, [c]⟩ :: (groupFrom prev 0 (some c) (pieces text)).1,
        (groupFrom prev 0 (some c) (pieces text)).2) := by
  rw [pieces_other hp hn, groupFrom_of_none (starts?_eq_none_of_kind (by simp) 0 pre prev)]
  rfl

lemma HasClauses.blank (hc : c = '\n' ∨ c = ' ') (h : HasClauses text clauses) :
    HasClauses (c :: text) clauses := by
  have hsr : isPlain c ∧ isNameChar c = false ∧ isAccess (some c) = false ∧ isBlank c := by
    rcases hc with rfl | rfl <;> decide
  obtain ⟨hp, hn, hac, hbn⟩ := hsr
  intro prev pre _
  obtain ⟨hbl, hou⟩ := h prev (some c) hac
  rw [groupFrom_other hp hn]
  refine ⟨?_, hou⟩
  intro d hd
  rcases mem_append.mp hd with h1 | hr
  · rwa [mem_singleton.mp h1]
  · exact hbl d hr

/-- A self-contained text keeps its outline before clauses on the next line. -/
theorem outline_append {own rest : Chars} (hown : SelfContained own)
    (hr : HasClauses ('\n' :: rest) clauses) :
    outline (own ++ '\n' :: rest) = outline (own ++ ['\n']) ++ clauses := by
  -- with the end of its line the text is closed, also if it ends in a line comment
  have hl := hown.newline
  have hps : pieces (own ++ '\n' :: rest) = pieces (own ++ ['\n']) ++ pieces rest := by
    rw [← pieces_append hl.1 (by simp)]
    simp
  have hb : (textOf (pieces (own ++ ['\n']))).getLast?.or none = some '\n' := by
    simp [textOf_pieces]
  obtain ⟨prev, hap⟩ := groupFrom_append hl.2 (fun piece => text_ne_nil_of_mem_pieces) [] none
  obtain ⟨hbl, hou⟩ := hr prev none rfl
  rw [groupFrom_other (by decide) (by decide)] at hbl hou
  have hgr := hap (pieces rest)
  rw [hb] at hgr
  rw [outline_eq_outlineOf, outline_eq_outlineOf, groups, hps]
  rw [(hgr fun c hc => hbl c (by simp [hc])).2, hou]
  rfl

/-! ## What starts no clause -/

/-- Outside brackets and after no point or dollar sign the pieces start no clause, and so leave
it. -/
def Silent (ps : List Piece) : Prop :=
  ∀ prev before, isAccess before = false → ∃ previous' before', isAccess before' = false ∧
    ∀ rest, groupFrom prev 0 before (ps ++ rest) =
      (ps ++ (groupFrom previous' 0 before' rest).1, (groupFrom previous' 0 before' rest).2)

lemma Silent.append {fst snd : List Piece} (h1 : Silent fst) (h2 : Silent snd) :
    Silent (fst ++ snd) := by
  intro prev pre hb
  obtain ⟨prev', before', hbe', hmi⟩ := h1 prev pre hb
  obtain ⟨previous'', before'', hbefore'', hl⟩ := h2 prev' before' hbe'
  refine ⟨previous'', before'', hbefore'', fun rest => ?_⟩
  rw [append_assoc, hmi, hl]
  simp

lemma Silent.piece {piece : Piece} (hdp : piece.depthAfter 0 = 0)
    (hend : isAccess piece.text.getLast? = false)
    (hst : ∀ pre prev, piece.starts? 0 pre prev = none) : Silent [piece] := by
  intro prev pre _
  refine ⟨piece.wordAfter pre prev, piece.text.getLast?, hend, fun rest => ?_⟩
  rw [singleton_append, groupFrom_of_none (hst pre prev), hdp]
  rfl

lemma Silent.other (hc : isAccess (some c) = false) : Silent [⟨.other, [c]⟩] :=
  .piece rfl hc (starts?_eq_none_of_kind (by simp) 0)

lemma Silent.word {word : Chars} (hw : IsLetters word)
    (hno : Keyword.ofCapitals? (upperChars word) = none) : Silent [⟨.name, word⟩] := by
  refine .piece rfl ?_ ?_
  · cases hl : word.getLast? with
    | none => rfl
    | some c =>
      have hc := hw c (mem_of_getLast? hl)
      have hpo := ne_of_isNameChar hc (by decide : isNameChar '.' = false)
      have hdo := ne_of_isNameChar hc (by decide : isNameChar '$' = false)
      simp [isAccess, hpo, hdo]
  · intro pre prev
    unfold starts? word?
    split
    · simp [Word.starts?, hno]
    · rfl

lemma Silent.bracketed {inner : List Piece} (hin : depthAfter? 0 inner = some 0)
    {opening closing : Char}
    (hclo : isAccess (some closing) = false) :
    Silent (⟨.opening, [opening]⟩ :: (inner ++ [⟨.closing, [closing]⟩])) := by
  intro prev pre _
  obtain ⟨prev', before', ha⟩ := groupFrom_inner hin prev (some opening)
  refine ⟨prev', some closing, hclo, fun rest => ?_⟩
  have hcl : groupFrom prev' (0 + 1) before' (⟨.closing, [closing]⟩ :: rest) =
      (⟨.closing, [closing]⟩ :: (groupFrom prev' 0 (some closing) rest).1,
        (groupFrom prev' 0 (some closing) rest).2) := by
    rfl
  have hwh := ha (⟨.closing, [closing]⟩ :: rest)
  rw [hcl] at hwh
  have hop : groupFrom prev 0 pre (⟨.opening, [opening]⟩ :: (inner ++
      ⟨.closing, [closing]⟩ :: rest)) =
      (⟨.opening, [opening]⟩ :: (groupFrom prev (0 + 1) (some opening) (inner ++
        ⟨.closing, [closing]⟩ :: rest)).1,
        (groupFrom prev (0 + 1) (some opening) (inner ++ ⟨.closing, [closing]⟩ :: rest)).2) := by
    rfl
  rw [cons_append, append_assoc, singleton_append, hop, hwh]
  simp

/-- A keyword before silent pieces is one clause more. -/
theorem HasClauses.clause {kw : Keyword} (hkw : kw.continuedAfter = []) {ps : List Piece}
    (hps : Silent ps) {rest : Chars}
    (hpi : pieces text = ⟨.name, kw.word.toList⟩ :: (ps ++ pieces rest))
    (hr : HasClauses rest clauses) :
    HasClauses text ((kw, trimEnd (kw.word.toList ++ textOf ps)) :: clauses) := by
  intro prev pre hb
  have hst : (mk .name kw.word.toList).starts? 0 pre prev = some kw := by
    have hcap : Keyword.ofCapitals? (upperChars kw.word.toList) = some kw := by
      cases kw <;> decide
    simp [starts?, word?, hb, Word.starts?, hcap, Keyword.continues, hkw]
  have hend : isAccess kw.word.toList.getLast? = false := by cases kw <;> decide
  obtain ⟨prev', before', hbe', hgr⟩ := hps (wordAfter pre prev ⟨.name, kw.word.toList⟩) _ hend
  obtain ⟨hbl, hou⟩ := hr prev' before' hbe'
  rw [hpi, groupFrom_of_some hst]
  refine ⟨by simp, ?_⟩
  have hdp : depthAfter ⟨.name, kw.word.toList⟩ 0 = 0 := rfl
  simp only [hdp, hgr, outlineOf, map_cons, textOf_cons, textOf_append]
  rw [← append_assoc, trimEnd_append_blanks _ hbl]
  exact congrArg _ hou

end GraphApi.Cypher
