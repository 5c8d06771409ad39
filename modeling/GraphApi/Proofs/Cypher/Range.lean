import GraphApi.Proofs.Cypher.Scan
import GraphApi.Text.Case
import GraphApi.Value.Basic

/-!
# What unwind clauses range over

A meaning for texts such as `UNWIND $data AS _data UNWIND _data.b AS B`: each clause makes one row
of each item. A property of null, and one that an object does not have, is null; nothing else has
properties. Main statement (`unwindClauses?_two`, `unwindClauses?_one`): the clauses are read back
from their text if the names in it are names.
-/

namespace GraphApi.Cypher

open List Text

variable {α β : Type} {c : Char} {as : Chars} {step : α → Option (List β)}
  {expr : PathExpr} {cl : Unwind}

/-! ## Path expressions -/

/-- Where a path expression starts. -/
inductive Root where
  | parameter (name : Name)
  | bound (name : Name)
deriving DecidableEq, Repr

/-- A parameter or a variable with properties that are read one from the other. -/
structure PathExpr where
  root : Root
  properties : List Name
deriving DecidableEq, Repr

/-- The values of the parameters, and of the variables in a row. -/
structure Bindings where
  parameters : NameMap Value
  row : NameMap Value := []

def Bindings.bind (bindings : Bindings) (name : Name) (value : Value) : Bindings :=
  { bindings with row := bindings.row.insert name value }

def Root.value? (bindings : Bindings) : Root → Option Value
  | .parameter name => bindings.parameters.get? name
  | .bound name => bindings.row.get? name

/-- What an object has under a name, null if it has nothing there. -/
def under (entries : Entries) (name : Name) : Value :=
  (NameMap.get? entries name).getD .null

/-- A property of a value; only objects and null have properties. -/
def property? : Value → Name → Option Value
  | .object entries, name => some (under entries name)
  | .null, _ => some .null
  | _, _ => none

def properties? : Value → List Name → Option Value
  | value, [] => some value
  | value, name :: rest => (property? value name).bind fun inner => properties? inner rest

def PathExpr.value? (bindings : Bindings) (expr : PathExpr) : Option Value :=
  (expr.root.value? bindings).bind fun value => properties? value expr.properties

@[simp] lemma properties?_null (names : List Name) : properties? .null names = some .null := by
  induction names with
  | nil => rfl
  | cons name rest ih => simpa [properties?, property?] using ih

lemma properties?_list (items : List Value) (name : Name) (rest : List Name) :
    properties? (.list items) (name :: rest) = none := rfl

lemma properties?_object (es : Entries) (name : Name) (rest : List Name) :
    properties? (.object es) (name :: rest) = properties? (under es name) rest := rfl

/-! ## Rows -/

def joinAll? {α β : Type} (step : α → Option (List β)) : List α → Option (List β)
  | [] => some []
  | item :: rest => do
    let first ← step item
    let others ← joinAll? step rest
    return first ++ others

lemma joinAll?_eq_some {res : α → List β} {items : List α}
    (h : ∀ item ∈ items, step item = some (res item)) :
    joinAll? step items = some (items.flatMap res) := by
  induction items with
  | nil => rfl
  | cons item rest ih =>
    have hr := ih (forall_mem_cons.mp h).2
    simp [joinAll?, h item mem_cons_self, hr]

lemma joinAll?_eq_none {items : List α} {item : α} (hi : item ∈ items)
    (h : step item = none) : joinAll? step items = none := by
  induction items with
  | nil => simp at hi
  | cons head rest ih =>
    rcases mem_cons.mp hi with rfl | hr
    · simp [joinAll?, h]
    · cases hhe : step head <;> simp [joinAll?, hhe, ih hr]

/-- The rows that a value is unwound to: the items of a list, none for null, and else one. -/
def unwound : Value → List Value
  | .list items => items
  | .null => []
  | value => [value]

/-- An unwind clause: what it unwinds, and the variable for the items. -/
structure Unwind where
  source : PathExpr
  name : Name
deriving DecidableEq, Repr

def ranges (name : Name) : List Unwind → Bindings → Option (List (Option Value))
  | [], bindings => some [bindings.row.get? name]
  | clause :: rest, bindings =>
    (clause.source.value? bindings).bind fun value =>
      joinAll? (fun item => ranges name rest (bindings.bind clause.name item)) (unwound value)

lemma ranges_one {source : PathExpr} {name : Name} {bindings : Bindings} :
    ranges name [⟨source, name⟩] bindings =
    (source.value? bindings).map fun value => (unwound value).map some := by
  cases hv : source.value? bindings with
  | none => simp [ranges, hv]
  | some value =>
    have his : joinAll? (fun item => ranges name [] (bindings.bind name item)) (unwound value) =
        some ((unwound value).flatMap fun item => [some item]) :=
      joinAll?_eq_some fun item _ => by simp [ranges, Bindings.bind]
    simpa [ranges, hv, map_eq_flatMap] using his

/-! ## Reading clauses -/

def IsName (name : Name) : Prop := name ≠ "" ∧ ∀ c ∈ name.toList, isNameChar c

lemma isName_iff_all {name : Name} : IsName name ↔ name ≠ "" ∧ name.toList.all isNameChar := by
  rw [IsName, all_eq_true]

instance (name : Name) : Decidable (IsName name) := decidable_of_iff _ isName_iff_all.symm

def PathExpr.read? (text : Chars) : Option PathExpr :=
  match text.splitOnP (· == '.') with
  | [] => none
  | ('$' :: name) :: rest => some ⟨.parameter (String.ofList name), rest.map String.ofList⟩
  | name :: rest => some ⟨.bound (String.ofList name), rest.map String.ofList⟩

/-- Reads the words of unwind clauses. The keywords may have letters of any case. -/
def readClauses : List Chars → Option (List Unwind)
  | [] => some []
  | unwind :: source :: as :: name :: rest =>
    if upperChars unwind = "UNWIND".toList ∧ upperChars as = "AS".toList then do
      let source ← PathExpr.read? source
      let others ← readClauses rest
      return ⟨source, String.ofList name⟩ :: others
    else none
  | _ => none

def blankWords (text : Chars) : List Chars :=
  (text.splitOnP isBlank).filter (!·.isEmpty)

def unwindClauses? (text : String) : Option (List Unwind) :=
  readClauses (blankWords text.toList)

/-! ## Reading back -/

lemma isBlank_eq_false (h : isNameChar c) : isBlank c = false := by
  have hco : blankCodes.all fun code => !isNameChar (Char.ofNat code) := by decide +kernel
  cases hbl : isBlank c with
  | false => rfl
  | true =>
    have hcd := all_eq_true.mp hco c.toNat (by simpa [isBlank] using hbl)
    simp [h] at hcd

def dotted (names : List Name) : Chars := names.flatMap fun name => '.' :: name.toList

def Root.text : Root → Chars
  | .parameter name => '$' :: name.toList
  | .bound name => name.toList

def PathExpr.text (expr : PathExpr) : Chars := expr.root.text ++ dotted expr.properties

def Root.name : Root → Name
  | .parameter name => name
  | .bound name => name

def PathExpr.HasNames (expr : PathExpr) : Prop :=
  IsName expr.root.name ∧ ∀ name ∈ expr.properties, IsName name

lemma splitOnP_dotted {start : Chars} (hst : ∀ c ∈ start, (c == '.') = false) {names : List Name}
    (hns : ∀ name ∈ names, IsName name) :
    (start ++ dotted names).splitOnP (· == '.') = start :: names.map String.toList := by
  induction names generalizing start with
  | nil => simpa [dotted] using splitOnP_eq_singleton hst
  | cons name rest ih =>
    have hn : ∀ c ∈ name.toList, (c == '.') = false := by
      intro c hc
      exact beq_eq_false_iff_ne.mpr (ne_of_isNameChar ((hns name mem_cons_self).2 c hc) (by decide))
    have hr := ih hn (forall_mem_cons.mp hns).2
    calc (start ++ dotted (name :: rest)).splitOnP (· == '.')
        = (start ++ '.' :: (name.toList ++ dotted rest)).splitOnP (· == '.') := by simp [dotted]
      _ = start.splitOnP (· == '.') ++ (name.toList ++ dotted rest).splitOnP (· == '.') :=
        splitOnP_append_cons _ _ rfl
      _ = start :: (name :: rest).map String.toList := by
          rw [splitOnP_eq_singleton hst, hr]
          simp

lemma PathExpr.read?_text (hex : expr.HasNames) : read? expr.text = some expr := by
  obtain ⟨root, names⟩ := expr
  obtain ⟨hr, hns⟩ := hex
  have hsr : (names.map String.toList).map String.ofList = names := by simp
  cases root with
  | parameter name =>
    have hst : ∀ c ∈ '$' :: name.toList, (c == '.') = false := by
      intro c hc
      rcases mem_cons.mp hc with rfl | hn
      · decide
      · exact beq_eq_false_iff_ne.mpr (ne_of_isNameChar (hr.2 c hn) (by decide))
    have hsp := splitOnP_dotted hst hns
    simp only [read?, text, Root.text, hsp, hsr, String.ofList_toList]
  | bound name =>
    have hst : ∀ c ∈ name.toList, (c == '.') = false := by
      intro c hc
      exact beq_eq_false_iff_ne.mpr (ne_of_isNameChar (hr.2 c hc) (by decide))
    have hsp := splitOnP_dotted hst hns
    cases hch : name.toList with
    | nil => exact absurd (String.toList_eq_nil_iff.mp hch) hr.1
    | cons fst rest =>
      have hm : fst ∈ name.toList := by simp [hch]
      have h1 : fst ≠ '$' := ne_of_isNameChar (hr.2 fst hm) (by decide)
      rw [hch] at hsp
      have hn : String.ofList (fst :: rest) = name := by rw [← hch, String.ofList_toList]
      simp only [read?, text, Root.text, hch, hsp]
      split
      next heq => simp at heq
      next heq => simp [h1] at heq
      next heq =>
        obtain ⟨rfl, rfl⟩ := cons.inj heq
        simp [hn]

lemma blankWords_cons {word : Chars} (hw : word ≠ []) (hbl : ∀ c ∈ word, isBlank c = false)
    (hc : isBlank c) (rest : Chars) : blankWords (word ++ c :: rest) = word :: blankWords rest := by
  rw [blankWords, splitOnP_append_cons _ _ hc, splitOnP_eq_singleton hbl]
  simp [blankWords, hw]

lemma blankWords_blank (hc : isBlank c) (rest : Chars) :
    blankWords (c :: rest) = blankWords rest := by
  have hsp := splitOnP_append_cons [] rest hc
  simp only [nil_append] at hsp
  simp [blankWords, hsp]

lemma blankWords_concat (text : Chars) (hc : isBlank c) :
    blankWords (text ++ [c]) = blankWords text := by
  rw [blankWords, splitOnP_append_cons text [] hc]
  simp [blankWords]

lemma IsName.toList_ne_nil {name : Name} (hn : IsName name) : name.toList ≠ [] :=
  fun h => hn.1 (String.toList_eq_nil_iff.mp h)

lemma IsName.not_blank {name : Name} (hn : IsName name) : ∀ c ∈ name.toList, isBlank c = false :=
  fun c hc => isBlank_eq_false (hn.2 c hc)

lemma PathExpr.HasNames.text_ne_nil (hex : expr.HasNames) : expr.text ≠ [] := by
  obtain ⟨root, names⟩ := expr
  cases root with
  | parameter name => simp [text, Root.text]
  | bound name =>
    have hn : name.toList ≠ [] := IsName.toList_ne_nil hex.1
    simp [text, Root.text, hn]

lemma PathExpr.HasNames.not_blank (hex : expr.HasNames) : ∀ c ∈ expr.text, isBlank c = false := by
  obtain ⟨root, names⟩ := expr
  intro c hc
  rcases mem_append.mp hc with hr | hdo
  · cases root with
    | parameter name =>
      rcases mem_cons.mp hr with rfl | hn
      · decide
      · exact IsName.not_blank hex.1 c hn
    | bound name => exact IsName.not_blank hex.1 c hr
  · obtain ⟨name, hn, hc⟩ := mem_flatMap.mp hdo
    rcases mem_cons.mp hc with rfl | hc
    · decide
    · exact (hex.2 name hn).not_blank c hc

def unwindWord : Chars := ['U', 'N', 'W', 'I', 'N', 'D']

def Unwind.text (as : Chars) (clause : Unwind) : Chars :=
  unwindWord ++ ' ' :: (clause.source.text ++ ' ' :: (as ++ ' ' :: clause.name.toList))

def Unwind.HasNames (clause : Unwind) : Prop :=
  clause.source.HasNames ∧ IsName clause.name

/-- The spellings of the second keyword of an unwind clause. -/
def asWords : List Chars := ["AS".toList, "as".toList]

lemma blankWords_clause (hcl : cl.HasNames) (has : as ∈ asWords)
    (hc : isBlank c) (rest : Chars) : blankWords (cl.text as ++ c :: rest) =
      unwindWord :: cl.source.text :: as :: cl.name.toList :: blankWords rest := by
  have huna : ∀ d ∈ unwindWord, isNameChar d := all_eq_true.mp (by decide)
  have hws : as ≠ [] ∧ ∀ d ∈ as, isNameChar d := by
    simp only [asWords, mem_cons, not_mem_nil, or_false] at has
    rcases has with rfl | rfl
    · exact ⟨by decide, all_eq_true.mp (by decide)⟩
    · exact ⟨by decide, all_eq_true.mp (by decide)⟩
  have hun : cl.text as ++ c :: rest =
      unwindWord ++ ' ' :: (cl.source.text ++
        ' ' :: (as ++ ' ' :: (cl.name.toList ++ c :: rest))) := by
    simp only [Unwind.text, append_assoc, cons_append]
  -- four words, none of which has a blank in it
  rw [hun, blankWords_cons (by decide) (fun d hd => isBlank_eq_false (huna d hd)) (by decide),
    blankWords_cons hcl.1.text_ne_nil hcl.1.not_blank (by decide),
    blankWords_cons hws.1 (fun d hd => isBlank_eq_false (hws.2 d hd)) (by decide),
    blankWords_cons hcl.2.toList_ne_nil hcl.2.not_blank hc]

lemma readClauses_cons (hcl : cl.HasNames) (has : as ∈ asWords) (rest : List Chars) :
    readClauses (unwindWord :: cl.source.text :: as :: cl.name.toList :: rest) =
      (readClauses rest).map (cl :: ·) := by
  have hup : upperChars as = "AS".toList := by
    revert as
    decide
  have hun : upperChars unwindWord = "UNWIND".toList := by decide
  rw [readClauses, if_pos ⟨hun, hup⟩, PathExpr.read?_text hcl.1]
  cases readClauses rest <;> simp

/-- The text of one unwind clause is read as this clause. -/
theorem unwindClauses?_one (hcl : cl.HasNames) (has : as ∈ asWords) {text : String}
    (ht : text.toList = cl.text as) : unwindClauses? text = some [cl] := by
  have hbl : isBlank ' ' := rfl
  have hws := blankWords_clause hcl has hbl []
  rw [blankWords_concat _ hbl] at hws
  rw [unwindClauses?, ht, hws, readClauses_cons hcl has]
  rfl

/-- The text of two unwind clauses is read as these. -/
theorem unwindClauses?_two {fst snd : Unwind} (h1 : fst.HasNames) (h2 : snd.HasNames)
    {as' : Chars} (has : as ∈ asWords) (has' : as' ∈ asWords) {text : String}
    (ht : text.toList = fst.text as ++ '\n' :: ' ' :: ' ' :: snd.text as') :
    unwindClauses? text = some [fst, snd] := by
  have hbl : isBlank ' ' := rfl
  have hws := blankWords_clause h2 has' hbl []
  rw [blankWords_concat _ hbl] at hws
  rw [unwindClauses?, ht, blankWords_clause h1 has (rfl : isBlank '\n'),
    blankWords_blank hbl, blankWords_blank hbl, hws, readClauses_cons h1 has,
    readClauses_cons h2 has']
  rfl

end GraphApi.Cypher
