import GraphApi.Nested.Translate
import GraphApi.Proofs.Cypher.Rendering
import GraphApi.Proofs.Cypher.Words

/-!
# Where nested blocks are inserted

Nested blocks come before the final `RETURN` clause of a statement, after a `WITH` that hands
everything on, outside all quoted texts, comments and brackets. Main statement: `insertion_is_safe`.
-/

namespace GraphApi.Cypher

open List Piece Text

variable {s rest : Chars} {depth : Nat}

/-! ## Texts on lines of their own -/

lemma words_trimEnd (s : Chars) :
    words (trimEnd s) = words s ∧ depthOver 0 (pieces (trimEnd s)) = depthOver 0 (pieces s) := by
  obtain ⟨bs, hbl, hsp⟩ := trimEnd_append s
  have hws := words_append_blanks hbl (trimEnd s)
  rw [← hsp] at hws
  exact ⟨hws.1.symm, hws.2.symm⟩

lemma exists_depthAfter? {ps : List Piece} (h : ps.length ≤ depth) :
    ∃ stop, depthAfter? depth ps = some stop := by
  induction ps generalizing depth with
  | nil => exact ⟨depth, rfl⟩
  | cons piece rest ih =>
    rw [length_cons] at h
    have ha : rest.length ≤ piece.depthAfter depth := by
      unfold depthAfter
      split <;> omega
    obtain ⟨stop, hst⟩ := ih ha
    exact ⟨stop, by rw [depthAfter?, if_neg (by omega), hst]⟩

/-- A text whose pieces are closed stays one if the blanks at its end are exchanged for the end of a
line. -/
lemma isClosed_trimEnd_newline (h : ∀ piece ∈ pieces s, piece.isClosed) :
    ∀ piece ∈ pieces (trimEnd s ++ ['\n']), piece.isClosed := by
  -- with enough brackets around it, the text can be read to its end although some of its own may have no partner
  obtain ⟨stop, hst⟩ := exists_depthAfter? (Nat.le_refl (pieces s).length)
  obtain ⟨last, hl, hrun⟩ := (exists_run_iff (.inl rfl) _ stop).mpr ⟨h, hst⟩
  obtain ⟨mode, hmo, htr⟩ := run_trimEnd hl hrun
  refine ((exists_run_iff (.inl rfl) (pieces s).length stop).mp ⟨.code, rfl, ?_⟩).1
  rw [Scan.run_append_of_run htr, run_newline hmo, Scan.run]

lemma readings_append (h : Joins s rest) : readings (s ++ rest) = readings s ++ readings rest := by
  rw [readings_eq, readings_eq, readings_eq, lexemes_append h, filter_append, map_append]

lemma readings_append_line (hcl : ∀ piece ∈ pieces (s ++ ['\n']), piece.isClosed)
    (hdp : depthOver 0 (pieces s) = 0) (rest : Chars) :
    readings (s ++ '\n' :: rest) = readings s ++ readings rest := by
  have hl : words (s ++ ['\n']) = words s ∧ depthOver 0 (pieces (s ++ ['\n'])) =
      depthOver 0 (pieces s) :=
    words_append_blanks (all_eq_true.mp (by decide)) s
  have hjo : Joins (s ++ ['\n']) rest :=
    ⟨pieces_append hcl (by simp) rest, hl.2.trans hdp, by simp [isAccess]⟩
  have hre := readings_append hjo
  rw [append_assoc, singleton_append] at hre
  rw [hre, readings, hl.1]
  rfl

/-! ## The last clause -/

lemma JoinsAll.last {texts : List Chars} {last : Chars} (h : JoinsAll (texts ++ [last])) :
    Joins texts.flatten last := by
  induction texts with
  | nil => exact joins_nil last
  | cons fst os ih =>
    obtain ⟨snd, more, hcons⟩ := exists_cons_of_ne_nil (by simp : os ++ [last] ≠ [])
    rw [cons_append, hcons] at h
    obtain ⟨h1, hos⟩ := h
    rw [← hcons] at h1 hos
    rw [flatten_append, flatten_singleton] at h1
    exact h1.append (ih hos)

variable {stmt : Chars} {cl : Clause}

lemma joins_last_clause (h : (split stmt).clauses.getLast? = some cl) :
    stmt.take cl.start ++ cl.text = stmt ∧ Joins (stmt.take cl.start) cl.text := by
  obtain ⟨front, hfr⟩ := getLast?_eq_some_iff.mp h
  have hpa := isPartition_split stmt
  have hst : cl.stop = stmt.length := by
    have hme := hpa.meets front.length cl (by simp [hfr])
    simpa [hfr] using hme
  have ht : cl.text = stmt.drop cl.start := by
    have hsl := hpa.slices cl (mem_of_getLast? h)
    rwa [hst, ← length_drop, take_length] at hsl
  have hwh : stmt.take cl.start ++ cl.text = stmt := by rw [ht, take_append_drop]
  have hjo := joinsAll_split stmt
  have hre : (split stmt).preamble ++ ((split stmt).clauses.map (·.text)).flatten = stmt := by
    have hte := textOf_groups stmt
    rw [flatMap_def, textOf_flatten, map_map] at hte
    rwa [split_eq_groups, map_clausesOf fun _ text => text]
  rw [hfr, map_append, map_singleton, ← cons_append] at hjo
  rw [hfr, map_append, map_singleton, flatten_append, flatten_singleton, ← append_assoc,
    ← flatten_cons] at hre
  refine ⟨hwh, ?_⟩
  rw [append_cancel_right (hwh.trans hre.symm)]
  exact hjo.last

/-- A text that something follows is read to its end, so nothing is open there. -/
lemma isClosed_of_joins (h : Joins s rest) (hne : rest ≠ []) :
    ∀ piece ∈ pieces s, piece.isClosed := by
  intro piece hp
  obtain ⟨front, back, hsp⟩ := append_of_mem hp
  have hps : pieces (s ++ rest) = (front ++ [piece]) ++ (back ++ pieces rest) := by
    rw [h.pieces, hsp]
    simp
  rcases endsBefore_of_pieces hps piece (by simp) with hnil | ⟨hco, -⟩
  · rw [textOf_append, textOf_pieces] at hnil
    exact absurd (append_eq_nil_iff.mp hnil).2 hne
  · unfold isComplete at hco
    unfold isClosed
    split at hco <;> simp_all

lemma readings_insertBlocks? {blocks : Chars} (h : (split stmt).clauses.getLast? = some cl)
    (hrt : cl.keyword = .returning) (hbc : SelfContained blocks) :
    ∃ inserted, insertBlocks? stmt blocks = some inserted ∧
      readings inserted = readings (stmt.take cl.start) ++
      (withLetters, 0) :: (readings blocks ++ readings cl.text) := by
  obtain ⟨-, hjo⟩ := joins_last_clause h
  obtain ⟨word, rest, ht, hne, hw, -⟩ := isSplit_of_mem (mem_of_getLast? h)
  obtain ⟨c, letters, rfl⟩ := exists_cons_of_ne_nil hne
  have hc : isBlank c = false := by
    cases hbl : isBlank c with
    | false => rfl
    | true => exact absurd (hw c mem_cons_self) (by simp [(sort_of_isBlank hbl).2.1])
  have htr : trim cl.text = trimEnd cl.text := by
    rw [trim, trimStart, ht, cons_append, dropWhile_cons_of_neg (by simp [hc])]
  have hcl := isClosed_trimEnd_newline (isClosed_of_joins hjo (by simp [ht]))
  obtain ⟨hfr, hdp⟩ := words_trimEnd (stmt.take cl.start)
  have hbd : depthOver 0 (pieces blocks) = 0 := depthOver_add hbc.2 0
  have hst : ∀ more, readings ("WITH *".toList ++ more) = (withLetters, 0) :: readings more := by
    intro more
    have hre : lexemes ("WITH *".toList ++ more) =
        Lexeme.word withLetters :: Lexeme.sign '*' :: lexemes more :=
      ((readsAs_withStart ('*' :: more)).append (readsAs_star more)).lexemes_append
    rw [readings_eq, readings_eq, hre]
    rfl
  refine ⟨_, by rw [insertBlocks?, h]; exact if_pos hrt, ?_⟩
  have hl : ∀ (front more : Chars), front ++ "\nWITH *".toList ++ blocks ++ more =
      front ++ '\n' :: ("WITH *".toList ++ (blocks ++ more)) := by simp
  rw [hl, readings_append_line hcl (hdp.trans hjo.depth), hst,
    readings_append_line hbc.newline.1 hbd, htr]
  simp only [readings, hfr, (words_trimEnd cl.text).1]

end GraphApi.Cypher

namespace GraphApi.Nested

open Cypher

lemma withBlocks_outcome (root nested : String) :
    (withBlocks (.text root) nested).outcome = .ok (.text (if nested = "" then root
      else ((insertBlocks? root.toList nested.toList).map String.ofList).getD root)) := by
  unfold withBlocks
  split
  · rfl
  · simp only [readStatement, Run.bind_outcome, Run.ofExcept, Option.bind_some]
    cases insertBlocks? root.toList nested.toList <;> rfl

/-- Nested blocks are inserted at a safe point of a statement that ends with a `RETURN` clause: its
words and those of the blocks are read as before, with a `WITH` between them that stands outside all
brackets. Any other statement stays as it is. -/
theorem insertion_is_safe (root nested : String) :
    ∃ statement, (withBlocks (.text root) nested).outcome = .ok (.text statement) ∧
      (∀ clause, (split root.toList).clauses.getLast? = some clause → clause.keyword = .returning → nested ≠ "" →
        SelfContained nested.toList →
          readings root.toList = readings (root.toList.take clause.start) ++ readings clause.text ∧
          readings statement.toList = readings (root.toList.take clause.start) ++ ("WITH".toList, 0) ::
            (readings nested.toList ++ readings clause.text)) ∧
      ((∀ clause, (split root.toList).clauses.getLast? = some clause → clause.keyword ≠ .returning) ∨ nested = "" →
        statement = root) := by
  refine ⟨_, withBlocks_outcome root nested, ?_, ?_⟩
  · intro clause hlast hreturn hne hnested
    obtain ⟨hwhole, hjoins⟩ := joins_last_clause hlast
    obtain ⟨inserted, hinserted, hreadings⟩ := readings_insertBlocks? hlast hreturn hnested
    constructor
    · rw [← readings_append hjoins, hwhole]
    · rw [if_neg hne, hinserted, Option.map_some, Option.getD_some, String.toList_ofList]
      exact hreadings
  · rintro (hother | hempty)
    · have hnone : insertBlocks? root.toList nested.toList = none := by
        unfold insertBlocks?
        split
        · rename_i clause hlast
          exact if_neg (hother clause hlast)
        · rfl
      rw [hnone, Option.map_none, Option.getD_none, ite_self]
    · exact if_pos hempty

/-- Blocks after a line comment that has a bracket and the word `RETURN` in it. -/
theorem insertion_after_comment_is_safe :
    ∃ statement, (withBlocks (.text "CREATE (n) // RETURN (\nRETURN n ") "\nCALL \x7b WITH * MERGE (m) \x7d // done").outcome =
        .ok (.text statement) ∧
      readings statement.toList = [("CREATE".toList, 0), ("n".toList, 1), ("WITH".toList, 0), ("CALL".toList, 0),
        ("WITH".toList, 1), ("MERGE".toList, 1), ("m".toList, 2), ("RETURN".toList, 0), ("n".toList, 0)] := by
  obtain ⟨statement, houtcome, hsafe, -⟩ := insertion_is_safe "CREATE (n) // RETURN (\nRETURN n "
    "\nCALL \x7b WITH * MERGE (m) \x7d // done"
  refine ⟨statement, houtcome, ?_⟩
  rw [(hsafe ⟨.returning, 23, "RETURN n ".toList⟩ (by decide +kernel) rfl (by decide)
    (by decide +kernel)).2]
  decide +kernel

end GraphApi.Nested
