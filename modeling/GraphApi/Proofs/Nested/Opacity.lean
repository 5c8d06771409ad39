import GraphApi.Proofs.Api.Maps
import GraphApi.Proofs.Nested.Coverage

/-!
# Values stay out of statements

What a mutation is translated to depends on the values of its arguments only through the keys of
their objects. Main statement: `values_stay_in_parameters`.
-/

namespace GraphApi

open List NameMap

variable {α : Type}

lemma NameMap.get?_append_cons (front : NameMap α) (name : Name) (value : α) (back : NameMap α)
    (key : Name) : get? (front ++ (name, value) :: back) key =
      (get? front key).or (if name = key then some value else get? back key) := by
  rw [get?_eq_find?, find?_append, Option.map_or, ← get?_eq_find?, ← get?_eq_find?, get?]

namespace Value

/-! ## Trees that differ in their leaves -/

mutual

def skeleton : Value → Value
  | .list items => .list (itemSkeletons items)
  | .object entries => .object (entrySkeletons entries)
  | _ => .null

def itemSkeletons : List Value → List Value
  | [] => []
  | item :: rest => item.skeleton :: itemSkeletons rest

/-- The entries of an object with null for their leaves. -/
def entrySkeletons : Entries → Entries
  | [] => []
  | (name, value) :: rest => (name, value.skeleton) :: entrySkeletons rest

end

/-! ## Trees that differ in the order of entries -/

/-- The entries of some objects in the first value stand in another order in the second one. -/
inductive Reordered : Value → Value → Prop
  | entries {first second : Entries} (h : first.Perm second) :
    Reordered (.object first) (.object second)
  | item {front back : List Value} {old new : Value} (h : Reordered old new) :
      Reordered (.list (front ++ old :: back)) (.list (front ++ new :: back))
  | entry {front back : Entries} {name : Name} {old new : Value} (h : Reordered old new) :
      Reordered (.object (front ++ (name, old) :: back)) (.object (front ++ (name, new) :: back))
  | trans {first second third : Value} (h : Reordered first second) (h' : Reordered second third) :
    Reordered first third

lemma Reordered.isObject_eq {fst snd : Value} (h : Reordered fst snd) :
    fst.isObject = snd.isObject := by
  induction h with
  | entries => rfl
  | item => rfl
  | entry => rfl
  | trans _ _ ih ih' => exact ih.trans ih'

lemma HasDistinctKeys.object_iff {es : Entries} : HasDistinctKeys (.object es) ↔
    (keys es).Nodup ∧ ∀ e ∈ es, e.2.HasDistinctKeys :=
  ⟨fun h => ⟨h _ (.refl _), fun _ he => h.entry he⟩, fun h => Nested.hasDistinctKeys_object h.1 h.2⟩

lemma HasDistinctKeys.list_iff {items : List Value} :
    HasDistinctKeys (.list items) ↔ ∀ item ∈ items, item.HasDistinctKeys :=
  ⟨fun h _ hi => h.item hi, Nested.hasDistinctKeys_list⟩

lemma Reordered.hasDistinctKeys {fst snd : Value} (h : Reordered fst snd)
    (hds : fst.HasDistinctKeys) : snd.HasDistinctKeys := by
  induction h with
  | entries hpr =>
    obtain ⟨hnd, hes⟩ := HasDistinctKeys.object_iff.mp hds
    refine HasDistinctKeys.object_iff.mpr ⟨(hpr.map _).nodup_iff.mp hnd, ?_⟩
    intro e he
    exact hes e (hpr.mem_iff.mpr he)
  | item _ ih =>
    rw [HasDistinctKeys.list_iff, forall_mem_append, forall_mem_cons] at hds ⊢
    obtain ⟨hfr, hold, hbc⟩ := hds
    exact ⟨hfr, ih hold, hbc⟩
  | entry _ ih =>
    rw [HasDistinctKeys.object_iff, forall_mem_append, forall_mem_cons] at hds ⊢
    obtain ⟨hnd, hfr, hold, hbc⟩ := hds
    exact ⟨by simpa [NameMap.keys] using hnd, hfr, ih hold, hbc⟩
  | trans _ _ ih ih' => exact ih' (ih hds)

end Value

namespace Nested

open Value HasDistinctKeys

variable {es fst snd : Entries} {path : List Name} {items front back : List Value}
  {old new : Value}

/-! ## Paths -/

def Leads (value : Value) (path : List Name) :
    Prop := ∃ object ∈ value.objects, CanFollow object path

lemma leads_object : Leads (.object es) path ↔ CanFollow es path := by
  simp [Leads, objects]

lemma exists_entries?_iff : (∃ object ∈ items.filterMap entries?, CanFollow object path) ↔
    ∃ item ∈ items, item.isObject ∧ Leads item path := by
  constructor
  · rintro ⟨object, hobj, hfo⟩
    obtain ⟨item, hi, hes⟩ := mem_filterMap.mp hobj
    cases item with
    | object es =>
      cases hes
      exact ⟨_, hi, rfl, leads_object.mpr hfo⟩
    | _ => cases hes
  · rintro ⟨item, hi, hobj, hle⟩
    cases item with
    | object es =>
      exact ⟨es, mem_filterMap.mpr ⟨_, hi, rfl⟩, leads_object.mp hle⟩
    | _ => cases hobj

lemma leads_list :
    Leads (.list items) path ↔ StartsWithObject items ∧ ∃ item ∈ items, item.isObject ∧
      Leads item path := by
  constructor
  · rintro ⟨object, hobj, hfo⟩
    unfold objects at hobj
    split at hobj
    next heq => cases heq
    next es rest heq =>
      cases heq
      refine ⟨⟨es, rest, rfl⟩, exists_entries?_iff.mp ⟨object, ?_, hfo⟩⟩
      simpa [entries?] using hobj
    · cases hobj
  · rintro ⟨⟨es, rest, rfl⟩, hi⟩
    obtain ⟨object, hobj, hfo⟩ := exists_entries?_iff.mpr hi
    exact ⟨object, by simpa [objects, entries?] using hobj, hfo⟩

lemma startsWithObject_replace (h : old.isObject = new.isObject) :
    StartsWithObject (front ++ old :: back) ↔ StartsWithObject (front ++ new :: back) := by
  cases front with
  | nil => cases old <;> cases new <;> simp_all [StartsWithObject, isObject]
  | cons fst rest => simp [StartsWithObject]

lemma exists_mem_replace (prop : Value → Prop) (h : prop old ↔ prop new) :
    (∃ item ∈ front ++ old :: back, prop item) ↔ ∃ item ∈ front ++ new :: back, prop item := by
  simp only [mem_append, mem_cons, or_and_right, exists_or, exists_eq_left, h]

lemma leads_of_reordered {fst snd : Value} (h : Reordered fst snd) (hds : fst.HasDistinctKeys)
    (path : List Name) : Leads fst path ↔ Leads snd path := by
  induction h generalizing path with
  | entries hpr =>
    have hnd := (object_iff.mp hds).1
    rw [leads_object, leads_object]
    cases path with
    | nil => exact Iff.rfl
    | cons name rest => rw [CanFollow, CanFollow, get?_of_perm hpr.symm hnd]
  | @item front back old new hold ih =>
    rw [list_iff, forall_mem_append, forall_mem_cons] at hds
    have hnew := ih hds.2.1 path
    have hre : old.isObject ∧ Leads old path ↔ new.isObject ∧ Leads new path := by
      rw [hold.isObject_eq, hnew]
    rw [leads_list, leads_list, startsWithObject_replace hold.isObject_eq,
      exists_mem_replace (fun item => item.isObject ∧ Leads item path) hre]
  | @entry front back name old new hold ih =>
    rw [object_iff, forall_mem_append, forall_mem_cons] at hds
    rw [leads_object, leads_object]
    cases path with
    | nil => exact Iff.rfl
    | cons key rest =>
      -- only a path that starts with the name of the entry meets the change
      have hnew : Leads old rest ↔ Leads new rest := ih hds.2.2.1 rest
      rw [CanFollow, CanFollow, get?_append_cons, get?_append_cons]
      cases get? front key with
      | some value => exact Iff.rfl
      | none =>
        by_cases hn : name = key
        · simpa [hn, Leads] using hnew
        · simp [hn]
  | trans h1 _ ih ih' => exact (ih hds path).trans (ih' (h1.hasDistinctKeys hds) path)

/-! ## Reading keys -/

lemma stumbles_of_reordered {fst snd : Value} (h : Reordered fst snd) :
    Stumbles fst ↔ Stumbles snd := by
  induction h with
  | entries hpr => simp only [stumbles_object_iff, hpr.mem_iff]
  | @item front back old new hold ih =>
    have hre : old.isObject = false ∨ Stumbles old ↔ new.isObject = false ∨ Stumbles new := by
      rw [hold.isObject_eq, ih]
    rw [stumbles_list_iff, stumbles_list_iff, startsWithObject_replace hold.isObject_eq,
      exists_mem_replace (fun item => item.isObject = false ∨ Stumbles item) hre]
  | entry _ ih =>
    simp only [stumbles_object_iff, mem_append, mem_cons, or_and_right, exists_or,
      exists_eq_left, ih]
  | trans _ _ ih ih' => exact ih.trans ih'

mutual

lemma keysOfValue_skeleton (value : Value) : keysOfValue value.skeleton = keysOfValue value := by
  match value with
  | .null | .bool _ | .int _ | .float _ | .text _ | .list [] => rfl
  | .list (.null :: _) | .list (.bool _ :: _) | .list (.int _ :: _) | .list (.float _ :: _)
  | .list (.text _ :: _) | .list (.list _ :: _) => rfl
  | .object es => rw [skeleton, keysOfValue, keysOfValue, keysOfEntries_skeleton es]
  | .list (.object es :: rest) =>
    rw [skeleton, itemSkeletons, skeleton, keysOfValue, keysOfValue, keysOfEntries_skeleton es]
    congr 1
    funext fst
    rw [mergeItems_skeleton rest]

lemma keysOfEntries_skeleton (es : Entries) :
    keysOfEntries (entrySkeletons es) = keysOfEntries es := by
  match es with
  | [] => rfl
  | (name, value) :: rest =>
    rw [entrySkeletons, keysOfEntries, keysOfEntries, keysOfValue_skeleton value,
      keysOfEntries_skeleton rest]

lemma mergeItems_skeleton (items : List Value) (merged : NameMap Value) :
    mergeItems merged (itemSkeletons items) = mergeItems merged items := by
  match items with
  | [] => rfl
  | .null :: _ | .bool _ :: _ | .int _ :: _ | .float _ :: _ | .text _ :: _ | .list _ :: _ => rfl
  | .object es :: rest =>
    rw [itemSkeletons, skeleton, mergeItems, mergeItems, keysOfEntries_skeleton es]
    congr 1
    funext keys
    exact mergeItems_skeleton rest _

end

/-! ## Blocks and translations -/

/-- The keys of both objects can be read and have the same paths, or they fail with the same
cause. -/
inductive ReadsAlike (first second : Entries) : Prop
  | ok {keys others : NameMap Value} (hfirst : keysOfEntries first = .ok keys)
      (hsecond : keysOfEntries second = .ok others)
      (hpaths : ∀ path, HasPath keys path ↔ HasPath others path)
  | error {cause : Fault} (hfirst : keysOfEntries first = .error cause)
    (hsecond : keysOfEntries second = .error cause)

lemma ReadsAlike.of_skeleton (h : (object fst).skeleton = (object snd).skeleton) :
    ReadsAlike fst snd := by
  have hes : entrySkeletons fst = entrySkeletons snd := by
    exact object.inj h
  have hks : keysOfEntries fst = keysOfEntries snd := by
    rw [← keysOfEntries_skeleton fst, hes, keysOfEntries_skeleton]
  cases hrd : keysOfEntries fst with
  | error cause => exact .error hrd (hks ▸ hrd)
  | ok keys => exact .ok hrd (hks ▸ hrd) fun _ => Iff.rfl

lemma ReadsAlike.of_reordered (h : Reordered (.object fst) (.object snd))
    (hds : HasDistinctKeys (.object fst)) : ReadsAlike fst snd := by
  have hst := stumbles_of_reordered h
  rcases keysOfEntries_cases fst with ⟨hs1, h1⟩ | ⟨hs1, keys, h1⟩
  · rcases keysOfEntries_cases snd with ⟨-, h2⟩ | ⟨hs2, -⟩
    · exact .error h1 h2
    · exact absurd (hst.mp hs1) hs2
  · rcases keysOfEntries_cases snd with ⟨hs2, -⟩ | ⟨-, os, h2⟩
    · exact absurd (hst.mpr hs2) hs1
    refine .ok h1 h2 ?_
    intro path
    obtain ⟨_, hks⟩ := keysOfEntries_spec fst hds keys h1
    obtain ⟨_, hos⟩ := keysOfEntries_spec snd (h.hasDistinctKeys hds) os h2
    rw [hks, hos, ← leads_object, ← leads_object]
    exact leads_of_reordered h hds path

lemma eachJoined_congr {α β : Type} {step other : α → Run Notice Fault (List β)} {items : List α}
    (h : ∀ item ∈ items, step item = other item) :
    eachJoined step items = eachJoined other items := by
  induction items with
  | nil => rfl
  | cons item rest ih =>
    rw [eachJoined, eachJoined, h item mem_cons_self, ih (forall_mem_cons.mp h).2]

lemma blocksWithin_congr {ctx : Setting} {levels : Nat} {ms : List ArgumentDef}
    {keys os : NameMap Value} (h : ∀ path, HasPath keys path ↔ HasPath os path) (scope : Scope) :
    blocksWithin ctx levels ms keys scope = blocksWithin ctx levels ms os scope := by
  induction levels generalizing ms keys os scope with
  | zero => rfl
  | succ levels ih =>
    refine eachJoined_congr ?_
    intro m _
    unfold memberBlocks
    cases ctx.members m.type.base with
    | none => rfl
    | some below =>
      -- the paths of one name say where there are keys, the longer ones say which keys
      have hn := h [m.name]
      simp only [HasPath, and_true] at hn
      cases hks : keysUnder keys m.name with
      | none =>
        cases hos : keysUnder os m.name with
        | none => rfl
        | some inner =>
          obtain ⟨_, hso⟩ := hn.mpr ⟨inner, hos⟩
          simp [hks] at hso
      | some inner =>
        obtain ⟨inner', hos⟩ := hn.mp ⟨inner, hks⟩
        have hin : ∀ path, HasPath inner path ↔ HasPath inner' path := by
          intro path
          have hp := h (m.name :: path)
          simpa [HasPath, hks, hos] using hp
        rw [hos]
        simp only [ih hin]

lemma ReadsAlike.blocksText_eq (h : ReadsAlike fst snd) (ctx : Setting) (args : List ArgumentDef)
    (expr : String) : blocksText ctx args fst expr = blocksText ctx args snd expr := by
  have hbl : blocks ctx args fst expr = blocks ctx args snd expr := by
    unfold blocks
    cases h with
    | ok h1 h2 hpa =>
      rw [h1, h2]
      exact blocksWithin_congr hpa _
    | error h1 h2 =>
      rw [h1, h2]
  rw [blocksText, blocksText, hbl]

lemma isMutation_or_error (schema : Schema) (fd : Name) : (∃ defn, IsMutation schema fd defn) ∨
    ∃ cause, ∀ vals, (translate schema fd vals).outcome = .error cause := by
  cases hd : mutation? schema fd with
  | none =>
    refine .inr ⟨.translation (.unknownMutation fd), fun vals => ?_⟩
    rw [translate, hd]
    rfl
  | some defn =>
    cases hrd : checkStatement defn.directives with
    | error cause =>
      refine .inr ⟨cause, fun vals => ?_⟩
      rw [translate, hd]
      dsimp only
      rw [hrd, Run.bind_outcome]
      rfl
    | ok checked =>
      cases hst : cypherStatement defn.directives with
      | null =>
        refine .inr ⟨.translation (.noStatement fd), fun vals => ?_⟩
        rw [translate, hd]
        dsimp only
        rw [hrd, hst, Run.bind_outcome]
        rfl
      | _ => exact .inl ⟨defn, hd, hrd, by simp [hst]⟩

lemma ReadsAlike.translate_eq (h : ReadsAlike fst snd) (schema : Schema) (fd : Name) :
    (translate schema fd fst).outcome.map (·.statement) = (translate schema fd snd).outcome.map
      (·.statement) := by
  rcases isMutation_or_error schema fd with ⟨defn, hmut⟩ | ⟨cause, hca⟩
  · rw [translate_outcome hmut, translate_outcome hmut, h.blocksText_eq]
    cases (blocksText (.ofMutation schema defn) defn.arguments snd "" >>=
      withBlocks (cypherStatement defn.directives)).outcome <;> rfl
  · rw [hca, hca]

lemma parameters_of_translate {schema : Schema} {fd : Name} {vals : Entries} {res : Translation}
    (h : (translate schema fd vals).outcome = .ok res) : res.parameters = vals := by
  rcases isMutation_or_error schema fd with ⟨defn, hmut⟩ | ⟨cause, hca⟩
  · rw [translate_outcome hmut] at h
    cases hout : (blocksText (.ofMutation schema defn) defn.arguments vals "" >>=
        withBlocks (cypherStatement defn.directives)).outcome with
    | error cause =>
      rw [hout] at h
      cases h
    | ok stmt =>
      rw [hout] at h
      cases h
      rfl
  · rw [hca] at h
    cases h

/-- Two trees of values that differ in their leaves only, or in the order of the entries of their
objects, are translated to the same statement or fail with the same cause. On success the parameters
are the values that were given. -/
theorem values_stay_in_parameters (schema : Schema) (field : Name) (values : List (Name × Value)) :
    (∀ other, (Value.object other).skeleton = (Value.object values).skeleton →
      (translate schema field other).outcome.map (·.statement) =
        (translate schema field values).outcome.map (·.statement)) ∧
    (∀ other, HasDistinctKeys (.object values) → Reordered (.object values) (.object other) →
      (translate schema field other).outcome.map (·.statement) =
        (translate schema field values).outcome.map (·.statement)) ∧
    ∀ result, (translate schema field values).outcome = .ok result → result.parameters = values := by
  refine ⟨?_, ?_, ?_⟩
  · intro other hskeleton
    exact (ReadsAlike.of_skeleton hskeleton).translate_eq schema field
  · intro other hdistinct hreordered
    exact ((ReadsAlike.of_reordered hreordered hdistinct).translate_eq schema field).symm
  · intro result hresult
    exact parameters_of_translate hresult

def sampleMutation : FieldDef :=
  { name := "create", arguments := sampleArguments, type := .named "String" false,
    directives := [sampleStatement "MERGE (a) RETURN a"] }

def sampleDocument : Document :=
  [.type { name := "Mutation", body := .object [] [sampleMutation] },
   .type { name := "AInput", body := .input [{ name := "name", type := .named "String" false },
      { name := "b", type := .named "BInput" false,
        directives := [sampleStatement "MERGE (b)"] }] },
   .type { name := "BInput", body := .input [{ name := "name", type := .named "String" false }] }]

def sampleGiven (name inner : Value) : Entries :=
  [("data", .list [.object [("name", name), ("b", .object [("name", inner)])]])]

def sampleTranslation : String :=
  "MERGE (a)\nWITH *\nCALL \x7b\n  WITH *\n  UNWIND $data AS _data\n  UNWIND _data.b as BInput\n  MERGE (b)" ++
  "\n  RETURN COUNT(*) AS _data_b_\n\x7d\nRETURN a"

/-- A quotation mark, a number or null in the place of a name, or the name after the object, leave
the statement as it is. -/
theorem sample_values_stay_in_parameters :
    ((translate (.assemble sampleDocument) "create" (sampleGiven (.text "a1") (.text "b1"))).outcome.toOption.bind
      (·.statement.text?)) = some sampleTranslation ∧
    ∀ other ∈ [sampleGiven (.text "'\x7d") .null, sampleGiven (.int 7) (.bool true),
        [("data", .list [.object [("b", .object [("name", .text "b1")]), ("name", .text "a1")]])]],
      (translate (.assemble sampleDocument) "create" other).outcome.map (·.statement) =
        (translate (.assemble sampleDocument) "create" (sampleGiven (.text "a1") (.text "b1"))).outcome.map
          (·.statement) := by
  refine ⟨by decide +kernel, ?_⟩
  obtain ⟨hleaves, horder, _⟩ :=
    values_stay_in_parameters (.assemble sampleDocument) "create"
      (sampleGiven (.text "a1") (.text "b1"))
  have hswapped : Reordered (.object (sampleGiven (.text "a1") (.text "b1")))
      (.object [("data", .list [.object [("b", .object [("name", .text "b1")]),
        ("name", .text "a1")]])]) :=
    @Reordered.entry [] [] _ _ _ (@Reordered.item [] [] _ _ (.entries (.swap _ _ _)))
  intro other hother
  simp only [mem_cons, not_mem_nil, or_false] at hother
  rcases hother with rfl | rfl | rfl
  · exact hleaves _ rfl
  · exact hleaves _ rfl
  · exact horder _ (.of_parts (by decide +kernel)) hswapped

end Nested

end GraphApi
