import GraphApi.Proofs.Api.Closure
import GraphApi.Schema.Definitions

/-!
# Arguments that cover those of an interface

A member that implements one of an interface takes each of its arguments with the same type, and
nothing else has to be given to it. Setting the arguments that page, order and filter keeps this
(`Covers.queryArguments`, `Covers.queryArguments_left`), and so does retargeting
(`Covers.retarget`).
-/

namespace GraphApi

open List Catalog ArgumentDef

variable {build : Name → ArgumentDef} {args own want : List ArgumentDef} {arg : ArgumentDef}
  {name : Option Name} {cfg : Settings}

/-- The arguments of a member cover those of a member that it implements. -/
structure Covers (own want : List ArgumentDef) : Prop where
  taken : ∀ arg ∈ want, ∃ other ∈ own, other.name = arg.name ∧ other.type = arg.type
  optional : ∀ other ∈ own, other.isDemanded → other.name ∈ want.map (·.name)

lemma Covers.refl (args : List ArgumentDef) : Covers args args :=
  ⟨fun arg h => ⟨arg, h, rfl, rfl⟩, fun _ h _ => mem_map_of_mem h⟩

lemma eq_build_of_mem_setArgument {given : Name} (hg : given ≠ "") (hnd : (args.map (·.name)).Nodup)
    (h : arg ∈ setArgument build (some given) args) (hn : arg.name = (build given).name) :
    arg = build given :=
  inj_on_of_nodup_map (nodup_names_setArgument hnd _) h (mem_setArgument_of_ne hg args) hn

/-! ## One step -/

lemma Covers.setArgument (h : Covers own want) (hnd : (want.map (·.name)).Nodup)
    (hbu : ∀ given, (build given).isDemanded = false) (name : Option Name) :
    Covers (setArgument build name own) (setArgument build name want) := by
  rcases name with _ | given
  · exact h
  by_cases hg : given = ""
  · simpa [GraphApi.setArgument, hg] using h
  refine ⟨fun arg harg => ?_, fun other ho hdem => ?_⟩
  · by_cases hn : arg.name = (build given).name
    · exact ⟨build given, mem_setArgument_of_ne hg own, hn.symm,
        congrArg type (eq_build_of_mem_setArgument hg hnd harg hn).symm⟩
    · rcases mem_setArgument harg with hd | ⟨_, hso, rfl⟩
      · obtain ⟨other, ho, heq, ht⟩ := h.taken arg hd
        refine ⟨other, mem_setArgument_of_mem ho ?_, heq, ht⟩
        rintro _ hso
        rwa [← Option.some.inj hso, heq]
      · rw [← Option.some.inj hso] at hn
        exact absurd rfl hn
  · rcases mem_setArgument ho with hd | ⟨_, -, rfl⟩
    · exact mem_names_setArgument.mpr (.inl (h.optional other hd hdem))
    · simp [hbu] at hdem

lemma Covers.setArgument_left (h : Covers own want)
    (hbu : ∀ given, (build given).isDemanded = false)
    (hn : ∀ given, name = some given → (build given).name ∉ want.map (·.name)) :
    Covers (GraphApi.setArgument build name own) want := by
  refine ⟨fun arg harg => ?_, fun other ho hdem => ?_⟩
  · obtain ⟨other, ho, hsame, ht⟩ := h.taken arg harg
    refine ⟨other, mem_setArgument_of_mem ho fun given hg heq => ?_, hsame, ht⟩
    exact hn given hg (heq ▸ hsame ▸ mem_map_of_mem harg)
  · rcases mem_setArgument ho with hd | ⟨_, -, rfl⟩
    · exact h.optional other hd hdem
    · simp [hbu] at hdem

/-- The bounds of a page are no more than numbers where only the implementing member declares
them. -/
def PagesAlike (own want : List ArgumentDef) : Prop :=
  ∀ other ∈ own, other.name ∈ pageArguments.map (·.name) → other.name ∈ want.map (·.name) ∨
    other.type = .plain "Int"

lemma isDemanded_of_mem_pageArguments (h : arg ∈ pageArguments) :
    arg.isDemanded = false ∧ arg.type = .plain "Int" := by
  rcases mem_pair.mp h with rfl | rfl <;> exact ⟨rfl, rfl⟩

lemma Covers.addPage_left (h : Covers own want) : Covers (addPage own) want := by
  refine ⟨fun arg harg => ?_, fun other ho hdem => ?_⟩
  · obtain ⟨other, ho, heq⟩ := h.taken arg harg
    exact ⟨other, mem_addPage.mpr (.inl ho), heq⟩
  · rcases mem_addPage.mp ho with hd | ⟨hpa, -⟩
    · exact h.optional other hd hdem
    · simp [(isDemanded_of_mem_pageArguments hpa).1] at hdem

lemma Covers.addPage (h : Covers own want) (hpa : PagesAlike own want) :
    Covers (addPage own) (addPage want) := by
  refine ⟨fun arg harg => ?_, fun other ho hdem => ?_⟩
  · rcases mem_addPage.mp harg with hd | ⟨hpg, hnew⟩
    · exact h.addPage_left.taken arg hd
    · by_cases hown : arg.name ∈ own.map (·.name)
      · obtain ⟨other, ho, heq⟩ := mem_map.mp hown
        have hint := (hpa other ho (heq ▸ mem_map_of_mem hpg)).resolve_left (heq ▸ hnew)
        exact ⟨other, mem_addPage.mpr (.inl ho), heq,
          hint.trans (isDemanded_of_mem_pageArguments hpg).2.symm⟩
      · exact ⟨arg, mem_addPage.mpr (.inr ⟨hpg, hown⟩), rfl, rfl⟩
  · obtain ⟨arg, harg, hn⟩ := mem_map.mp (h.addPage_left.optional other ho hdem)
    exact mem_map.mpr ⟨arg, mem_addPage.mpr (.inl harg), hn⟩

/-! ## All steps -/

/-- Arguments that cover others still do when both are set to page, order and filter. -/
theorem Covers.queryArguments (h : Covers own want) (hnd : (want.map (·.name)).Nodup)
    (hpa : PagesAlike own want) (isList : Bool) (ordering filter : Option Name) :
    Covers (queryArguments own isList ordering filter)
      (queryArguments want isList ordering filter) := by
  cases isList with
  | false => exact h.setArgument hnd (fun _ => rfl) filter
  | true =>
    have hpg := nodup_names_addPage hnd
    refine setArgument ?_ (nodup_names_setArgument hpg ordering) (fun _ => rfl) filter
    exact (h.addPage hpa).setArgument hpg (fun _ => rfl) ordering

/-- Setting the covering arguments alone is safe if the others neither order nor filter. -/
theorem Covers.queryArguments_left (h : Covers own want) (hord : "orderBy" ∉ want.map (·.name))
    (hfi : "filter" ∉ want.map (·.name)) (isList : Bool)
    (ordering filter : Option Name) :
    Covers (GraphApi.queryArguments own isList ordering filter) want := by
  cases isList with
  | false => exact h.setArgument_left (fun _ => rfl) fun _ _ => hfi
  | true =>
    refine setArgument_left ?_ (fun _ => rfl) fun _ _ => hfi
    exact h.addPage_left.setArgument_left (fun _ => rfl) fun _ _ => hord

/-! ## Retargeting -/

def ArgumentDef.IsSteady (cfg : Settings) (arg : ArgumentDef) : Prop :=
  (arg.retarget cfg).isDemanded → arg.isDemanded

def StaysOptional (cfg : Settings) (own want : List ArgumentDef) : Prop :=
  ∀ arg ∈ own, arg.name ∈ want.map (·.name) ∨ arg.IsSteady cfg

lemma Wrappers.required_wrap (wrappers : Wrappers) (fst snd : Name) :
    (wrappers.wrap fst).required = (wrappers.wrap snd).required := by
  cases h : wrappers.list <;> simp [wrap, h, TypeRef.required]

/-- Retargeting flattens lists, so it changes what is required only in lists of lists. -/
lemma isSteady_of_flat (cfg : Settings) (h : arg.type.wrappers.wrap arg.type.base = arg.type) :
    arg.IsSteady cfg := by
  have hre : (retargetRef cfg storedInputName arg.type).required = arg.type.required := by
    unfold retargetRef
    split
    · split
      · rfl
      · rw [Wrappers.required_wrap _ _ arg.type.base, h]
    · rfl
  unfold IsSteady isDemanded retarget
  rw [hre]
  exact id

/-- Arguments that page, order and filter never have to be given. -/
theorem StaysOptional.queryArguments {res : List ArgumentDef} (h : StaysOptional cfg own want)
    (hres : want.map (·.name) ⊆ res.map (·.name)) (isList : Bool)
    (ordering filter : Option Name) :
    StaysOptional cfg (queryArguments own isList ordering filter) res := by
  intro arg harg
  rcases mem_queryArguments harg with hd | hpa | ⟨_, -, rfl⟩ | ⟨_, -, rfl⟩
  · exact (h arg hd).imp_left fun hn => hres hn
  · refine .inr (isSteady_of_flat cfg ?_)
    rw [(isDemanded_of_mem_pageArguments hpa).2]
    rfl
  · exact .inr (isSteady_of_flat cfg rfl)
  · exact .inr (isSteady_of_flat cfg rfl)

/-- Covering survives retargeting if no argument comes to be required. -/
theorem Covers.retarget (h : Covers own want) (hop : StaysOptional cfg own want) :
    Covers (own.map (·.retarget cfg)) (want.map (·.retarget cfg)) := by
  refine ⟨fun arg harg => ?_, fun other ho hdem => ?_⟩
  · obtain ⟨decl, hd, rfl⟩ := mem_map.mp harg
    obtain ⟨other, ho, hn, ht⟩ := h.taken decl hd
    exact ⟨_, mem_map_of_mem ho, hn, congrArg (retargetRef cfg storedInputName) ht⟩
  · obtain ⟨decl, hd, rfl⟩ := mem_map.mp ho
    rw [map_map]
    rcases hop decl hd with hn | hst
    · exact hn
    · exact h.optional decl hd (hst hdem)

end GraphApi
