import GraphApi.Proofs.Nested.Heads
import GraphApi.Proofs.Nested.Variables
import Mathlib.Data.List.Forall2

/-!
# The variable of the root statement

A block reads a variable named after the type of an argument, instead of the parameter, exactly if a
clause of the root statement unwinds the parameter under this name, both up to the case of letters
(`reads_variable_iff`).
-/

namespace GraphApi.Cypher

open List Text

variable {word text rest name param stmt : Chars} {continues : Chars → Bool}

/-! ## Clauses that unwind a parameter -/

def SameLetters (word text : Chars) : Prop := Forall₂ (fun c d => sameLetter c d) word text

def IsGap (gap : Chars) : Prop := gap ≠ [] ∧ ∀ c ∈ gap, isBlank c

/-- The text `UNWIND $parameter AS name`, where the blanks and the case of letters in the keywords
are free, and with the names as `same` says. -/
def UnwindsAs (same : Chars → Chars → Prop) (parameter name text : Chars) : Prop :=
  ∃ unwind gap source gap' as gap'' bound rest,
    text = unwind ++ (gap ++ (source ++ (gap' ++ (as ++ (gap'' ++ (bound ++ rest)))))) ∧
    SameLetters Keyword.unwind.word.toList unwind ∧ IsGap gap ∧
      same ('$' :: parameter) source ∧ IsGap gap' ∧
    SameLetters ['A', 'S'] as ∧ IsGap gap'' ∧ same name bound ∧ endsWord bound.getLast? rest.head?

lemma SameLetters.refl (word : Chars) :
    SameLetters word word := forall₂_same.mpr fun c _ => by simp [sameLetter]

lemma dropLetters?_eq_some_iff :
    dropLetters? word text = some rest ↔ ∃ front, text = front ++ rest ∧
      SameLetters word front := by
  induction word generalizing text with
  | nil => simp [dropLetters?, SameLetters]
  | cons c word ih =>
    cases text with
    | nil => simp [dropLetters?, SameLetters, forall₂_cons_left_iff]
    | cons d text =>
      rw [dropLetters?]
      constructor
      · intro h
        split at h
        next heq =>
          obtain ⟨front, rfl, hfr⟩ := ih.mp h
          exact ⟨d :: front, rfl, .cons heq hfr⟩
        · cases h
      · rintro ⟨_, ht, heq | ⟨heq, hfr⟩⟩
        obtain ⟨rfl, rfl⟩ := cons.inj ht
        rw [if_pos heq]
        exact ih.mpr ⟨_, rfl, hfr⟩

lemma afterWord_iff : afterWord word continues text ↔
    ∃ front rest, text = front ++ rest ∧ SameLetters word front ∧ continues rest := by
  rw [afterWord]
  cases hdr : dropLetters? word text with
  | none =>
    refine iff_of_false (by simp) ?_
    rintro ⟨front, rest, ht, heq, -⟩
    simp [dropLetters?_eq_some_iff.mpr ⟨front, ht, heq⟩] at hdr
  | some rest =>
    obtain ⟨front, ht, heq⟩ := dropLetters?_eq_some_iff.mp hdr
    refine ⟨fun h => ⟨front, rest, ht, heq, h⟩, ?_⟩
    rintro ⟨front', rest', htx', hsa', h⟩
    rw [dropLetters?_eq_some_iff.mpr ⟨front', htx', hsa'⟩] at hdr
    rwa [← Option.some_inj.mp hdr]

lemma afterBlanks_iff : afterBlanks continues text ↔
    ∃ gap rest, text = gap ++ rest ∧ IsGap gap ∧ continues rest := by
  induction text with
  | nil => simp [afterBlanks, IsGap]
  | cons c text ih =>
    simp only [afterBlanks, Bool.and_eq_true, Bool.or_eq_true, ih]
    constructor
    · rintro ⟨hbl, hr | ⟨gap, rest, rfl, ⟨-, hgap⟩, hr⟩⟩
      · exact ⟨[c], text, rfl, ⟨by simp, by simpa using hbl⟩, hr⟩
      · exact ⟨c :: gap, rest, rfl, ⟨by simp, forall_mem_cons.mpr ⟨hbl, hgap⟩⟩, hr⟩
    · rintro ⟨gap, rest, ht, ⟨hne, hgap⟩, hr⟩
      obtain ⟨d, gap, rfl⟩ := exists_cons_of_ne_nil hne
      obtain ⟨rfl, rfl⟩ := cons.inj ht
      obtain ⟨hbl, hgap⟩ := forall_mem_cons.mp hgap
      refine ⟨hbl, ?_⟩
      by_cases hnil : gap = []
      · exact .inl (by simpa [hnil] using hr)
      · exact .inr ⟨gap, rest, rfl, ⟨hnil, hgap⟩, hr⟩

lemma startsWithName_iff (hn : name ≠ []) : startsWithName name text ↔
    ∃ front rest, text = front ++ rest ∧ SameLetters name front ∧
      endsWord front.getLast? rest.head? := by
  have hl {front rest : Chars} (heq : SameLetters name front) :
      ((front ++ rest).take name.length).getLast?.or (some ' ') = front.getLast? := by
    rw [heq.length_eq, take_left]
    cases hfr : front.getLast? with
    | none => simp_all [SameLetters]
    | some c => rfl
  have hst : startsWithName name text = afterWord name
      (fun rest => endsWord ((text.take name.length).getLast?.or (some ' ')) rest.head?) text := rfl
  rw [hst, afterWord_iff]
  refine exists_congr fun front => exists_congr fun rest => and_congr_right ?_
  rintro rfl
  exact and_congr_right fun heq => by rw [hl heq]

lemma unwinds_iff (hn : name ≠ []) : unwinds stmt param name ↔
    ∃ cl ∈ (split stmt).clauses, cl.keyword = .unwind ∧
      UnwindsAs SameLetters param name cl.text := by
  simp only [unwinds, any_eq_true, Bool.and_eq_true, decide_eq_true_eq, Clause.unwinds,
    afterWord_iff, afterBlanks_iff, startsWithName_iff hn, UnwindsAs]
  refine exists_congr fun cl => and_congr_right fun _ => and_congr_right fun _ => ?_
  constructor
  · rintro ⟨unwind, _, ht, hun, gap, _, rfl, hgap, source, _, rfl, hsrc, gap', _, rfl, hgap',
      as, _, rfl, has, gap'', _, rfl, hgap'', bound, rest, rfl, hbo, hend⟩
    exact ⟨_, _, _, _, _, _, _, _, ht, hun, hgap, hsrc, hgap', has, hgap'', hbo, hend⟩
  · rintro ⟨_, _, _, _, _, _, _, _, ht, hun, hgap, hsrc, hgap', has, hgap'', hbo, hend⟩
    exact ⟨_, _, ht, hun, _, _, rfl, hgap, _, _, rfl, hsrc, _, _, rfl, hgap', _, _, rfl,
      has, _, _, rfl, hgap'', _, _, rfl, hbo, hend⟩

end GraphApi.Cypher

namespace GraphApi.Nested

open Value Cypher List

variable {ctx : Setting} {arg m : ArgumentDef} {above : Route}

/-! ## What blocks read -/

/-- One of the clauses of the root statement unwinds an argument as a variable named after its
type. -/
def Setting.BindsVariable (ctx : Setting) (same : Chars → Chars → Prop) (arg : ArgumentDef) :
    Prop :=
  ∃ root, ctx.root = .text root ∧ ∃ clause ∈ (split root.toList).clauses, clause.keyword = .unwind ∧
    UnwindsAs same arg.name.toList arg.type.base.toList clause.text

lemma Setting.unwindsArgument_iff (ht : arg.type.base ≠ "") :
    ctx.unwindsArgument arg ↔ ctx.BindsVariable SameLetters arg := by
  rw [unwindsArgument, BindsVariable]
  cases ctx.root with
  | text root => simp [unwinds_iff (by simpa using ht : arg.type.base.toList ≠ [])]
  | _ => simp

lemma Setting.BindsVariable.sameLetters (h : ctx.BindsVariable Eq arg) :
    ctx.BindsVariable SameLetters arg := by
  obtain ⟨root, hr, cl, hcl, hkw, _, _, _, _, _, _, _, _, ht, hun, hgap, rfl, hgap', has, hgap'',
    rfl, hend⟩ := h
  exact ⟨root, hr, cl, hcl, hkw, _, _, _, _, _, _, _, _, ht, hun, hgap, .refl _, hgap', has, hgap'',
    .refl _, hend⟩

def Block.root? : Block → Option Root
  | .subquery unwinding _ _ _ => (unwindClauses? unwinding).bind fun clauses =>
    clauses.head?.map (·.source.root)

lemma root?_argument {rest : Route} (hns : Route.HasNames (arg :: (rest ++ [m])))
    (inner : List Block) :
    (ctx.blockIn (ctx.scopeAt {} (arg :: rest)) m inner).root? =
      some (match enclosing? (arg :: rest) with
        | some (_, host, _) => .bound (handedOn host.type.base)
        | none => if ctx.unwindsArgument arg then .bound arg.type.base
          else .parameter arg.name) := by
  rw [Setting.blockIn, Block.root?, unwindClauses?_unwinding hns, Setting.access,
    ctx.usesVariable_start]
  cases enclosing? (arg :: rest) with
  | some found => rfl
  | none =>
    cases ctx.unwindsArgument arg with
    | true => rfl
    | false => cases hl : (lastOf arg rest).type.wrappers.list <;> simp [Access.clauses, hl]

lemma root?_start (hn : IsName m.name) (ht : IsName m.type.base) (inner : List Block) :
    (ctx.blockIn {} m inner).root? =
      some (.bound (if ctx.unwindsArgument m then m.type.base else m.name)) := by
  rw [Setting.blockIn, Block.root?, unwindClauses?_start hn ht, ctx.usesVariable_start]
  rfl

/-- In a successful run, a block with no other one around it starts from the variable of its
argument exactly if a clause of the root statement unwinds the argument as this variable, up to the
case of the letters of both names. Otherwise it starts from the parameter, or from the name of the
argument if the argument has the statement itself. A block in another one starts from the variable
of that one. If both names are spelled the same, the root statement counts as one that unwinds the
argument. -/
theorem reads_variable_iff {setting : Setting} {arguments : List ArgumentDef} (hnames : HasNames setting arguments)
    {values : List (Name × Value)} (hkeys : HasDistinctKeys (.object values)) {result : List Block}
    (hrun : (blocks setting arguments values "").outcome = .ok result) :
    (∃ layouts, result = Layout.toBlocks setting {} layouts ∧
      ∀ above member inner, .block above member inner ∈ Layout.allPlaces layouts →
        let root? := ((Layout.block above member inner).toBlock setting {}).root?
        match enclosing? above with
        | some (_, host, _) => root? = some (.bound (handedOn host.type.base))
        | none => ∃ argument ∈ arguments, (above ++ [member]).head? = some argument ∧
          (setting.BindsVariable SameLetters argument → root? = some (.bound argument.type.base)) ∧
          (¬ setting.BindsVariable SameLetters argument →
            root? = some (if above = [] then .bound argument.name else .parameter argument.name))) ∧
    ∀ argument ∈ arguments, setting.BindsVariable Eq argument →
      setting.unwindsArgument argument := by
  obtain ⟨keys, rfl, hmem⟩ := exists_keys_of_blocks hkeys hrun
  refine ⟨⟨_, rfl, fun above member inner hplace => ?_⟩, fun argument hargument hbinds => ?_⟩
  · have hroute := mem_map_of_mem (f := Layout.route) hplace
    rw [Layout.map_route_allPlaces, hmem] at hroute
    have hsteps := hnames.route hroute.1
    cases above with
    | nil =>
      obtain ⟨hname, htype⟩ := hsteps member (by simp [Layout.route])
      have hroot := @root?_start setting member hname htype (Layout.toBlocks setting {} inner)
      have hiff := setting.unwindsArgument_iff htype.1
      refine ⟨member, hroute.1.1, rfl, fun hbinds => ?_, fun hbinds => ?_⟩
      · rwa [if_pos (hiff.mpr hbinds)] at hroot
      · rwa [if_neg (mt hiff.mp hbinds)] at hroot
    | cons argument rest =>
      have hroot := @root?_argument setting argument member rest hsteps
        (Layout.toBlocks setting {} inner)
      -- a block in another one starts from the variable of that one
      cases henclosing : enclosing? (argument :: rest) with
      | some found => rwa [henclosing] at hroot
      | none =>
        have hiff := setting.unwindsArgument_iff (hsteps argument mem_cons_self).2.1
        rw [henclosing] at hroot
        refine ⟨argument, hroute.1.1, rfl, fun hbinds => ?_, fun hbinds => ?_⟩
        · rw [hiff.mpr hbinds] at hroot
          exact hroot
        · rw [Bool.eq_false_iff.mpr (mt hiff.mp hbinds)] at hroot
          exact hroot
  · exact (setting.unwindsArgument_iff (hnames.arguments argument hargument).2.1).mpr
      hbinds.sameLetters

/-- The sample with a root statement that unwinds the argument in other letters than it is spelled
in. -/
def otherCase : Setting := { sampleSetting with root := .text "UNWIND $DATA AS ainput MERGE (a) RETURN a" }

/-- Variables are told apart by case, so the variable that the blocks read is not bound. -/
theorem reads_variable_in_other_case :
    ∃ result layouts, (blocks otherCase sampleArguments sampleValues "").outcome = .ok result ∧ result ≠ [] ∧
      result = Layout.toBlocks otherCase {} layouts ∧ ¬ otherCase.BindsVariable Eq sampleData ∧
      ∀ above member inner, .block above member inner ∈ Layout.allPlaces layouts → enclosing? above = none →
        ((Layout.block above member inner).toBlock otherCase {}).root? = some (.bound "AInput") := by
  obtain ⟨result, hresult⟩ := Option.isSome_iff_exists.mp (by decide +kernel :
    ((blocks otherCase sampleArguments sampleValues "").outcome.toOption.filter (!·.isEmpty)).isSome)
  obtain ⟨hresult, hne⟩ := Option.filter_eq_some_iff.mp hresult
  have hrun := ok_of_toOption hresult
  obtain ⟨⟨layouts, hlayouts, hplaces⟩, -⟩ := reads_variable_iff
    (⟨hasNames_sample.arguments, hasNames_sample.members⟩ : HasNames otherCase sampleArguments) hasDistinctKeys_sample hrun
  have hbinds : otherCase.BindsVariable SameLetters sampleData :=
    (otherCase.unwindsArgument_iff (by decide)).mp (by decide +kernel)
  refine ⟨result, layouts, hrun, by simpa using hne, hlayouts, ?_, fun above member inner hplace henclosing => ?_⟩
  · rintro ⟨_, ⟨⟩, clause, hclause, _, unwind, gap, _, _, _, _, _, _, htext, _, _, rfl, _⟩
    have hnone : ∀ clause ∈ (split "UNWIND $DATA AS ainput MERGE (a) RETURN a".toList).clauses,
        ¬ "$data".toList <:+: clause.text := by decide +kernel
    exact hnone clause hclause ⟨unwind ++ gap, _, by rw [htext, append_assoc, append_assoc]; rfl⟩
  · have hplace := hplaces above member inner hplace
    rw [henclosing] at hplace
    obtain ⟨argument, hargument, -, hroot, -⟩ := hplace
    obtain rfl := mem_singleton.mp hargument
    exact hroot hbinds

end GraphApi.Nested
