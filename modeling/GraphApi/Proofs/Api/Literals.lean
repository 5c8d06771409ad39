import GraphApi.Directive.Known
import GraphApi.Proofs.Api.Maps
import Mathlib.Algebra.Group.Int.Defs
import Mathlib.Algebra.Group.Nat.Defs

/-!
# Literals that are read back

A literal of a value is read as this value, unless an integer in it has too many digits to be read.
So the arguments of the generated directives are read as they were given. Main statement:
`literals_read_back`.
-/

namespace GraphApi

open List

/-- A value of texts, truth values, nulls, integers of a sort and lists of such values. -/
inductive Value.IsPlain (sort : Int → Prop) : Value → Prop
  | null : IsPlain sort .null
  | bool (value : Bool) : IsPlain sort (.bool value)
  | text (content : String) : IsPlain sort (.text content)
  | int {n : Int} (h : sort n) : IsPlain sort (.int n)
  | list {items : List Value} (h : ∀ item ∈ items, IsPlain sort item) : IsPlain sort (.list items)

/-- An integer with few enough digits to be read. -/
def IsShort (n : Int) : Prop := n.natAbs < 10 ^ digitLimit

def Literal.read (literal : Literal) : Except Fault Value :=
  if literal.isReadable then .ok literal.value else .error .longNumber

def readArgument (directive : Option Directive) (name : Name) : Except Fault Value :=
  (checkReadable directive [name]).map fun _ => directiveArgument directive name

def readArguments (directives : List Directive) (name : Name) : Except Fault (NameMap Value) :=
  (checkAllReadable (findDirective directives name)).map fun _ => directiveArguments directives name

/-- Both ways to read the arguments of a directive give the same entries. An argument that is not
there is read as null. -/
structure Directive.Carries (directive : Directive) (entries : NameMap Value) : Prop where
  each : ∀ name, readArgument (some directive) name = .ok ((entries.get? name).getD .null)
  all : ∀ directives, findDirective directives directive.name = some directive →
    readArguments directives directive.name = .ok entries

/-! ## Integers -/

variable {v : Value} {n : Int} {sort : Int → Prop} {dir : Directive} {es : NameMap Value}

lemma toList_negSucc (k : Nat) : (toString (Int.negSucc k)).toList =
    '-' :: Nat.toDigits 10 (k + 1) := by
  rw [Int.toString_eq_repr, Int.repr, String.toList_append, Nat.toList_repr]
  rfl

lemma intValue_toString (n : Int) : Literal.intValue (toString n) = n := by
  have hval (k : Nat) : Binary64.digitsValue (Nat.toDigits 10 k) = k :=
    (Nat.ofDigitChars_eq_foldl (b := 10)).symm.trans Nat.ofDigitChars_ten_toDigits
  cases n with
  | ofNat k =>
    have hd : (toString (Int.ofNat k)).toList = Nat.toDigits 10 k := Nat.toList_repr
    rw [Literal.intValue, hd]
    split
    next rest hsi =>
      -- a sign is no digit
      have hm : '-' ∈ Nat.toDigits 10 k := by simp [hsi]
      exact absurd (Nat.isDigit_of_mem_toDigits (by decide) (by decide) hm) (by decide)
    · exact congrArg Int.ofNat (hval k)
  | negSucc k =>
    rw [Literal.intValue, toList_negSucc]
    exact congrArg (fun k : Nat => -(k : Int)) (hval (k + 1))

lemma isReadableInt_toString : isReadableInt (toString n) ↔ IsShort n := by
  have hd (k : Nat) : (Nat.toDigits 10 k).filter Char.isDigit = Nat.toDigits 10 k :=
    filter_eq_self.mpr fun c => Nat.isDigit_of_mem_toDigits (by decide) (by decide)
  have hf : (toString n).toList.filter Char.isDigit = Nat.toDigits 10 n.natAbs := by
    cases n with
    | ofNat k => exact (congrArg _ Nat.toList_repr).trans (hd k)
    | negSucc k => exact (congrArg _ (toList_negSucc k)).trans (hd (k + 1))
  rw [isReadableInt, hf, decide_eq_true_eq, IsShort,
    Nat.length_toDigits_le_iff (by decide) (by decide)]

/-! ## Values -/

namespace Literal

lemma ofValues_eq_map (items : List Value) : ofValues items = items.map ofValue := by
  induction items with
  | nil => rfl
  | cons item rest ih => rw [ofValues, ih, map_cons]

lemma values_eq_map (items : List Literal) : values items = items.map value := by
  induction items with
  | nil => rfl
  | cons item rest ih => rw [values, ih, map_cons]

lemma areReadable_eq_all (items : List Literal) : areReadable items = items.all isReadable := by
  induction items with
  | nil => rfl
  | cons item rest ih => rw [areReadable, ih, all_cons]

lemma value_ofValue (h : v.IsPlain sort) : (ofValue v).value = v := by
  induction h with
  | null => rfl
  | bool value => rfl
  | text content => rfl
  | int => exact congrArg Value.int (intValue_toString _)
  | list _ ih =>
    rw [ofValue, value, ofValues_eq_map, values_eq_map, map_map]
    exact congrArg Value.list ((map_congr_left ih).trans (map_id _))

lemma isReadable_ofValue (h : v.IsPlain sort) : (ofValue v).isReadable ↔ v.IsPlain IsShort := by
  induction h with
  | null => exact iff_of_true rfl .null
  | bool value => exact iff_of_true rfl (.bool value)
  | text content => exact iff_of_true rfl (.text content)
  | int =>
    rw [ofValue, isReadable, isReadableInt_toString]
    exact ⟨.int, fun | .int h => h⟩
  | list _ ih =>
    rw [ofValue, isReadable, areReadable_eq_all, ofValues_eq_map, all_map, all_eq_true]
    exact ⟨fun h => .list fun item hi => (ih item hi).mp (h item hi),
      fun | .list h => fun item hi => (ih item hi).mpr (h item hi)⟩

lemma read_eq_ok_iff (h : v.IsPlain sort) : (ofValue v).read = .ok v ↔ v.IsPlain IsShort := by
  rw [read, value_ofValue h, ← isReadable_ofValue h]
  split <;> simp_all

end Literal

/-! ## Directives -/

namespace Directive

lemma argument_eq (dir : Directive) (name : Name) : dir.argument name =
    (NameMap.get? (dir.arguments.map fun e => (e.1, e.2.value)) name).getD .null := by
  unfold argument
  induction dir.arguments with
  | nil => rfl
  | cons e rest ih => by_cases h : e.1 = name <;> simp [NameMap.get?, h, ih]

lemma carries (har : dir.arguments.map (fun e => (e.1, e.2.value)) = es)
    (hrd : ∀ e ∈ dir.arguments, e.2.isReadable) (hnd : es.keys.Nodup) : dir.Carries es where
  each name := by
    have hall : checkReadable (some dir) [name] = .ok () := by
      refine if_pos (all_eq_true.mpr fun literal hl => ?_)
      obtain ⟨_, -, hf⟩ := mem_filterMap.mp hl
      obtain ⟨e, he, rfl⟩ := Option.map_eq_some_iff.mp hf
      exact hrd e (mem_of_find?_eq_some he)
    rw [readArgument, hall, directiveArgument, argument_eq, har]
    rfl
  all dirs hf := by
    have hall : checkAllReadable (some dir) = .ok () := if_pos (all_eq_true.mpr hrd)
    rw [readArguments, directiveArguments, hf, hall]
    exact congrArg Except.ok ((congrArg NameMap.ofList har).trans (NameMap.ofList_eq_self hnd))

end Directive

/-- The literal of a value is read as this value, unless an integer in it has too many digits, and
generated directives are read as they were built. -/
theorem literals_read_back : (∀ value : Value, value.IsPlain (fun _ => True) →
      (value.IsPlain IsShort → (Literal.ofValue value).read = .ok value) ∧
      (¬ value.IsPlain IsShort → (Literal.ofValue value).read = .error .longNumber)) ∧
    (∀ name : Value, name.IsPlain IsShort → ∀ source target : Name, (∀ direction : Option Direction,
        (buildRelation name source target direction).Carries (("name", name) ::
          ((direction.map fun direction => ("direction", Value.text direction.word)).toList ++
            [("from", .text source), ("to", .text target)])) ∧
        relationName (some (buildRelation name source target direction)) = name ∧
        relationDirection (some (buildRelation name source target direction)) = direction.getD .outgoing) ∧
      (buildMutationMeta name source target).Carries
        [("relationship", name), ("from", .text source), ("to", .text target)]) ∧
    ∀ settings action types, settings.enablesAuth .hasScope →
      ∃ directive, operationDirectives settings action types = [directive] ∧ directive.name = "hasScope" ∧
        directive.Carries [("scopes", .list
          (((NameMap.ofList (types.map (·, ()))).keys.flatMap (scopesOf action)).map .text))] := by
  refine ⟨fun value hplain => ⟨fun hshort => ?_, fun hlong => ?_⟩, fun name hname source target =>
    ⟨fun direction => ?_, ?_⟩, fun settings action types hauth => ?_⟩
  · exact (Literal.read_eq_ok_iff hplain).mpr hshort
  · exact if_neg fun hread => hlong ((Literal.isReadable_ofValue hplain).mp hread)
  · have hvalue := Literal.value_ofValue hname
    have hread := (Literal.isReadable_ofValue hname).mpr hname
    refine ⟨Directive.carries ?_ ?_ ?_,
      by simpa [relationName, directiveArgument, buildRelation, Directive.argument], ?_⟩
    · cases direction <;> simp [buildRelation, hvalue, Literal.ofValue, Literal.value]
    · cases direction <;> simp [buildRelation, hread, Literal.ofValue, Literal.isReadable]
    · cases direction <;> simp [NameMap.keys]
    · have hword (direction : Direction) :
          (if Text.upper direction.word = Direction.incoming.word then .incoming else .outgoing) =
            direction := by
        cases direction <;> decide +kernel
      cases direction with
      | none => rfl
      | some direction => exact hword direction
  · have hread := (Literal.isReadable_ofValue hname).mpr hname
    refine Directive.carries ?_ ?_ (by simp [NameMap.keys])
    · simp [buildMutationMeta, Literal.value_ofValue hname, Literal.ofValue, Literal.value]
    · simp [buildMutationMeta, hread, Literal.ofValue, Literal.isReadable]
  · have hscopes (scopes : List String) : (Value.list (scopes.map .text)).IsPlain IsShort := by
      refine .list fun item hitem => ?_
      obtain ⟨scope, -, rfl⟩ := mem_map.mp hitem
      exact .text scope
    refine ⟨_, if_pos hauth, rfl, Directive.carries ?_ ?_ (by simp [NameMap.keys])⟩
    · simp [Literal.value_ofValue (hscopes _)]
    · simp [(Literal.isReadable_ofValue (hscopes _)).mpr (hscopes _)]

/-- An integer with one digit more than can be read. -/
theorem long_integers_fail : (Value.int (10 ^ digitLimit)).IsPlain (fun _ => True) ∧
    (Literal.ofValue (.int (10 ^ digitLimit))).read ≠ .ok (.int (10 ^ digitLimit)) := by
  have hplain : (Value.int (10 ^ digitLimit)).IsPlain (fun _ => True) := .int trivial
  refine ⟨hplain, fun hread => ?_⟩
  obtain _ | _ | _ | hshort := (Literal.read_eq_ok_iff hplain).mp hread
  simp [IsShort, Int.natAbs_pow] at hshort

end GraphApi
