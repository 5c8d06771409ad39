import GraphApi.Proofs.Nested.Access

/-!
# The values that a block unwinds

A list argument, or a list member reached without entering a block, is unwound if the member of the
block stands directly below it; other members on the way are passed by reading a property. Main
statement: `unwinding_enumerates_iff`.
-/

namespace GraphApi.Nested

open Value Cypher List Route Nested.Access PathExpr NameMap

variable {ctx : Setting} {front rest outer : Route} {m arg host : ArgumentDef} {name : Name}
  {last values object es : Entries} {args ms : List ArgumentDef} {bindings : Bindings}

lemma joinAll?_map {α β γ : Type} (step : β → Option (List γ)) (make : α → β) (items : List α) :
    joinAll? step (items.map make) = joinAll? (fun item => step (make item)) items := by
  induction items with
  | nil => rfl
  | cons item rest ih => simp [joinAll?, ih]

/-! ## What is bound around a block -/

/-- The rows in which a block is run: one for each value of the enclosing block, one for each item
of the argument that the root statement unwinds, or a single one. -/
def Access.bound (values : Entries) : Access → List Bindings
  | .block outer host _ => (reached (outer ++ [host]).names values).map fun entries =>
      ⟨values, [(handedOn host.type.base, .object entries), (host.type.base, .object entries)]⟩
  | .item argument _ => (unwound (under values argument.name)).map fun item =>
    ⟨values, [(argument.type.base, item)]⟩
  | .parameter _ _ => [⟨values, []⟩]

/-- The members that are passed by reading a property, though the values there may be lists. -/
def Access.crossed : Access → Route
  | .block _ _ front => front
  | .item _ rest => rest
  | .parameter argument rest => (argument :: rest).dropLast

/-- What the unwind clauses of a block range over, in all rows in which the block is run. -/
def Setting.rangesOver (ctx : Setting) (values : Entries) (argument : ArgumentDef) (rest : Route)
    (member : ArgumentDef) : Option (List (Option Value)) :=
  (unwindClauses? (ctx.unwinding (ctx.scopeAt {} (argument :: rest)) member)).bind fun clauses =>
    joinAll? (ranges member.type.base clauses) ((ctx.access argument rest).bound values)

def unwoundBelow (above : List Name) (member : ArgumentDef) (values : Entries) :
    List (Option Value) :=
  (reached above values).flatMap fun last => (unwound (under last member.name)).map some

lemma unwoundBelow_append (fst snd : List Name) (m : ArgumentDef) (values : Entries) :
    unwoundBelow (fst ++ snd) m values = (reached fst values).flatMap (unwoundBelow snd m) := by
  rw [unwoundBelow, reached_append, flatMap_assoc]
  rfl

lemma unwoundBelow_append_nil (names : List Name) (m : ArgumentDef) (values : Entries) :
    unwoundBelow names m values = (reached names values).flatMap (unwoundBelow [] m) := by
  simpa using unwoundBelow_append names [] m values

lemma unwoundBelow_cons (name : Name) (rest : List Name) (m : ArgumentDef) (values : Entries) :
    unwoundBelow (name :: rest) m values = (givenBy (under values name)).flatMap
      (unwoundBelow rest m) := by
  rw [unwoundBelow, reached, flatMap_assoc]
  rfl

lemma ranges_bound (hes : HasMembers ctx ms es) (hdc : Declares ctx ms (front ++ [m]))
    (hfr : ∀ step ∈ front, step.type.wrappers.list = false)
    (hbo : bindings.row.get? name = some (.object es)) :
    ranges m.type.base [⟨⟨.bound name, front.names ++ [m.name]⟩, m.type.base⟩] bindings =
      some (unwoundBelow front.names m es) := by
  obtain ⟨value, hv, hun⟩ := properties?_fields hes hdc hfr
  rw [ranges_one]
  simp [value?, Root.value?, hbo, hv, hun, unwoundBelow, map_flatMap]

lemma ranges_bound_eq_none (hes : HasMembers ctx ms es)
    (hdc : Declares ctx ms (front ++ [m])) (hre : Reaches es front.names last)
    (hl : ∃ step ∈ front, step.type.wrappers.list)
    (hbo : bindings.row.get? name = some (.object es)) :
    ranges m.type.base [⟨⟨.bound name, front.names ++ [m.name]⟩, m.type.base⟩] bindings = none := by
  have hv := properties?_through_list hes hdc hre hl
  rw [ranges_one]
  simp [value?, Root.value?, hbo, hv]

variable (hvs : HasMembers ctx args values) (hdc : Declares ctx args (arg :: (rest ++ [m])))

section

include hvs

lemma ranges_block (hdc : Declares ctx args ((outer ++ [host]) ++ (front ++ [m])))
    (hfr : ∀ step ∈ front, step.type.wrappers.list = false) :
    joinAll? (ranges m.type.base ((block outer host front).clauses m))
      ((block outer host front).bound values) =
      some (unwoundBelow ((outer ++ [host]).names ++ front.names) m values) := by
  rw [bound, joinAll?_map, unwoundBelow_append]
  refine joinAll?_eq_some fun es hes => ?_
  obtain ⟨below, hbe, hr⟩ := hasMembers_of_reaches hvs hdc (mem_reached_iff.mp hes)
  exact ranges_bound hbe hr hfr (by simp [get?])

lemma ranges_block_eq_none (hdc : Declares ctx args ((outer ++ [host]) ++ (front ++ [m])))
    (hre : last ∈ reached ((outer ++ [host]).names ++ front.names) values)
    (hlist : ∃ step ∈ front, step.type.wrappers.list) :
    joinAll? (ranges m.type.base ((block outer host front).clauses m))
      ((block outer host front).bound values) = none := by
  rw [reached_append, mem_flatMap] at hre
  obtain ⟨es, hes, hl⟩ := hre
  obtain ⟨below, hbe, hr⟩ := hasMembers_of_reaches hvs hdc (mem_reached_iff.mp hes)
  rw [bound, joinAll?_map]
  exact joinAll?_eq_none hes (ranges_bound_eq_none hbe hr (mem_reached_iff.mp hl) hlist
    (by simp [get?]))

include hdc

lemma ranges_item (hp : IsPlain arg.type) (hr : ∀ step ∈ rest, step.type.wrappers.list = false) :
    joinAll? (ranges m.type.base ((item arg rest).clauses m)) ((item arg rest).bound values) =
      some (unwoundBelow (arg.name :: names rest) m values) := by
  obtain ⟨harg, below, hbe, hdc⟩ := hdc
  have ht := hvs arg harg
  rw [bound, joinAll?_map, unwoundBelow_cons, givenBy_eq_filterMap]
  -- an item that is null gives no row, as no object is given there
  refine joinAll?_objects (fun item => object_or_null_of_mem_unwound hp ht hbe) ?_ ?_
  · simp [clauses, ranges_one, value?, Root.value?, get?, unwound]
  · intro es hes
    rw [← givenBy_eq_filterMap] at hes
    exact ranges_bound (ht.hasMembers hbe (mem_givenBy_iff.mp hes)) hdc hr (by simp [get?])

lemma ranges_item_eq_none (hre : last ∈ reached (arg.name :: names rest) values)
    (hlist : ∃ step ∈ rest, step.type.wrappers.list) :
    joinAll? (ranges m.type.base ((item arg rest).clauses m))
      ((item arg rest).bound values) = none := by
  obtain ⟨harg, below, hbe, hdc⟩ := hdc
  rw [reached, mem_flatMap] at hre
  obtain ⟨es, hes, hl⟩ := hre
  have hms := (hvs arg harg).hasMembers hbe (mem_givenBy_iff.mp hes)
  have hi : .object es ∈ unwound (under values arg.name) := by
    rcases mem_givenBy_iff.mp hes with hv | ⟨items, hv, hi⟩
    · simp [hv, unwound]
    · simpa [hv, unwound] using hi
  rw [bound, joinAll?_map]
  exact joinAll?_eq_none hi (ranges_bound_eq_none hms hdc (mem_reached_iff.mp hl) hlist
    (by simp [get?]))

end

/-! ## Over a parameter -/

lemma dropLast_concat_lastOf (arg : ArgumentDef) (rest : Route) :
    (arg :: rest).dropLast ++ [lastOf arg rest] = arg :: rest := by
  have hl : lastOf arg rest = (arg :: rest).getLast (by simp) := by
    apply Option.some.inj
    rw [← getLast?_eq_some_getLast, getLast?_cons, lastOf]
  rw [hl, dropLast_concat_getLast]

lemma names_eq_concat {last : ArgumentDef}
    (hsp : front ++ [last] = arg :: rest) :
    arg.name :: rest.names = front.names ++ [last.name] := by
  have hmap := congrArg names hsp
  simpa [names] using hmap.symm

lemma value?_parameter {row : Entries} {rest : List Name} (hg : (get? values name).isSome) :
    value? ⟨values, row⟩ ⟨.parameter name, rest⟩ = properties? (.object values) (name :: rest) := by
  obtain ⟨value, hv⟩ := Option.isSome_iff_exists.mp hg
  simp [value?, Root.value?, properties?_object, under, hv]

lemma isSome_of_reached {rest : List Name} (h : last ∈ reached (name :: rest) values) :
    (get? values name).isSome := by
  cases mem_reached_iff.mp h with
  | step hv _ _ => simp [hv]

/-- One more name leads from the objects reached to those given under it. -/
lemma reached_concat (names : List Name) (name : Name) (values : Entries) :
    reached (names ++ [name]) values = (reached names values).flatMap fun last =>
      givenBy (under last name) := by
  rw [reached_append]
  simp [reached]

section

include hvs hdc

lemma ranges_parameter_single (hg : (get? values arg.name).isSome)
    (hl : (lastOf arg rest).type.wrappers.list = false)
    (hcr : ∀ step ∈ (arg :: rest).dropLast, step.type.wrappers.list = false) :
    ranges m.type.base ((parameter arg rest).clauses m) ⟨values, []⟩ =
      some (unwoundBelow (arg.name :: names rest) m values) := by
  have hab : ∀ step ∈ arg :: rest, step.type.wrappers.list = false := by
    intro step hst
    rw [← dropLast_concat_lastOf, mem_append, mem_singleton] at hst
    rcases hst with hst | rfl
    · exact hcr step hst
    · exact hl
  have hcl : (parameter arg rest).clauses m =
      [⟨⟨.parameter arg.name, names rest ++ [m.name]⟩, m.type.base⟩] := by
    simp [clauses, hl]
  obtain ⟨value, hv, hun⟩ := properties?_fields hvs hdc hab
  have hp : value? ⟨values, []⟩ ⟨.parameter arg.name, names rest ++ [m.name]⟩ = some value :=
    (value?_parameter hg).trans hv
  rw [hcl, ranges_one, hp, Option.map_some, hun, map_flatMap]
  rfl

lemma ranges_parameter_list {last : ArgumentDef} (hg : (get? values arg.name).isSome)
    (hsp : front ++ [last] = arg :: rest) (hp : IsPlain last.type)
    (hcr : ∀ step ∈ front, step.type.wrappers.list = false) :
    ranges m.type.base [⟨⟨.parameter arg.name, names rest⟩, "_" ++ last.name⟩,
        ⟨⟨.bound ("_" ++ last.name), [m.name]⟩, m.type.base⟩] ⟨values, []⟩ =
      some (unwoundBelow (arg.name :: names rest) m values) := by
  have hns := names_eq_concat hsp
  have hfr : Declares ctx args (front ++ ([last] ++ [m])) := by
    rwa [← append_assoc, hsp]
  have hfl : Declares ctx args (front ++ [last]) := by
    rw [← append_assoc] at hfr
    exact hfr.of_append
  obtain ⟨value, hv, hun⟩ := properties?_fields hvs hfl hcr
  have hpt : value? ⟨values, []⟩ ⟨.parameter arg.name, names rest⟩ = some value := by
    rw [value?_parameter hg, hns, hv]
  -- what stands under the last member of an object above it
  have hob : ∀ es ∈ reached front.names values, ∃ below,
      HasType ctx last.type (under es last.name) ∧
      ctx.members last.type.base = some below ∧ Declares ctx below [m] := by
    intro es hes
    obtain ⟨ms, hms, hld, below, hbe, hm⟩ := hasMembers_of_reaches hvs hfr (mem_reached_iff.mp hes)
    exact ⟨below, hms last hld, hbe, hm⟩
  have hgb : (unwound value).filterMap entries? = reached (front.names ++ [last.name]) values := by
    rw [reached_concat, hun, filterMap_flatMap]
    simp [givenBy_eq_filterMap]
  rw [Cypher.ranges, hpt, Option.bind_some, hns, unwoundBelow_append_nil, ← hgb]
  refine joinAll?_objects ?_ ?_ ?_
  · intro item hi
    rw [hun, mem_flatMap] at hi
    obtain ⟨es, hes, hi⟩ := hi
    obtain ⟨below, ht, hbe, _⟩ := hob es hes
    exact object_or_null_of_mem_unwound hp ht hbe hi
  · simp [ranges_one, value?, Root.value?, Bindings.bind, unwound]
  · intro es hes
    rw [hgb, reached_concat, mem_flatMap] at hes
    obtain ⟨above, hab, hes⟩ := hes
    obtain ⟨below, ht, hbe, hm⟩ := hob above hab
    have hms := ht.hasMembers hbe (mem_givenBy_iff.mp hes)
    have hnil : ∀ step ∈ ([] : Route), step.type.wrappers.list = false := by simp
    exact ranges_bound hms hm hnil (by simp [Bindings.bind])

lemma ranges_parameter_eq_none (hre : object ∈ reached (arg.name :: names rest) values)
    (hlist : ∃ step ∈ (arg :: rest).dropLast, step.type.wrappers.list) :
    ranges m.type.base ((parameter arg rest).clauses m) ⟨values, []⟩ = none := by
  have hg := isSome_of_reached hre
  have hsp := dropLast_concat_lastOf arg rest
  cases hl : (lastOf arg rest).type.wrappers.list with
  | true =>
    -- the first clause fails, before the last member is unwound
    have hns := names_eq_concat hsp
    have hfr : Declares ctx args ((arg :: rest).dropLast ++ [lastOf arg rest]) := by
      rw [hsp]
      exact Declares.of_append hdc
    rw [hns, reached_concat, mem_flatMap] at hre
    obtain ⟨es, hes, _⟩ := hre
    have hv := properties?_through_list hvs hfr (mem_reached_iff.mp hes) hlist
    have hp : value? ⟨values, []⟩ ⟨.parameter arg.name, names rest⟩ = none := by
      rw [value?_parameter hg, hns, hv]
    simp [clauses, hl, Cypher.ranges, hp]
  | false =>
    obtain ⟨step, hst, hil⟩ := hlist
    have hrc : Reaches values (names (arg :: rest)) object := mem_reached_iff.mp hre
    have hv := properties?_through_list hvs hdc hrc ⟨step, (dropLast_sublist _).subset hst, hil⟩
    have hp : value? ⟨values, []⟩ ⟨.parameter arg.name, names rest ++ [m.name]⟩ = none :=
      (value?_parameter hg).trans hv
    simp [clauses, hl, ranges_one, hp]

end

/-! ## The main statement -/

lemma isPlain_of_reached {last : ArgumentDef} (hvs : HasMembers ctx args values)
    (hdc : Declares ctx args (front ++ [last]))
    (hre : object ∈ reached (front.names ++ [last.name]) values) : IsPlain last.type := by
  rw [reached_concat, mem_flatMap] at hre
  obtain ⟨es, hes, hobj⟩ := hre
  obtain ⟨ms, hms, hl, _⟩ := hasMembers_of_reaches hvs hdc (mem_reached_iff.mp hes)
  exact isPlain_of_gives (hms last hl) (mem_givenBy_iff.mp hobj)

include hvs hdc in
lemma rangesOver_eq (hns : Route.HasNames (arg :: (rest ++ [m])))
    (hre : object ∈ reached (arg.name :: names rest) values) :
    ((∀ step ∈ (ctx.access arg rest).crossed, step.type.wrappers.list = false) →
      ctx.rangesOver values arg rest m = some (unwoundBelow (arg.name :: names rest) m values)) ∧
    ((∃ step ∈ (ctx.access arg rest).crossed, step.type.wrappers.list) →
      ctx.rangesOver values arg rest m = none) := by
  rw [Setting.rangesOver, unwindClauses?_unwinding hns, Option.bind_some]
  unfold Setting.access
  split
  next outer host front henc =>
    obtain ⟨hab, _, _⟩ := enclosing?_some henc
    have hsp : arg :: (rest ++ [m]) = (outer ++ [host]) ++ (front ++ [m]) := by
      rw [← cons_append, hab]
      simp
    have hrt : arg.name :: names rest = (outer ++ [host]).names ++ front.names := by
      have hmap := congrArg names hab
      simpa [names] using hmap
    rw [hsp] at hdc
    rw [hrt] at hre ⊢
    exact ⟨ranges_block hvs hdc, ranges_block_eq_none hvs hdc hre⟩
  · split
    · have hp : IsPlain arg.type := by
        rw [reached, mem_flatMap] at hre
        obtain ⟨es, hes, _⟩ := hre
        exact isPlain_of_gives (hvs arg hdc.1) (mem_givenBy_iff.mp hes)
      exact ⟨ranges_item hvs hdc hp, ranges_item_eq_none hvs hdc hre⟩
    · have hg := isSome_of_reached hre
      have hone : ∀ clauses, joinAll? (ranges m.type.base clauses)
          ((parameter arg rest).bound values) = ranges m.type.base clauses ⟨values, []⟩ := by
        intro clauses
        cases hra : ranges m.type.base clauses ⟨values, []⟩ <;> simp [bound, joinAll?, hra]
      rw [hone]
      refine ⟨?_, ranges_parameter_eq_none hvs hdc hre⟩
      intro hcr
      cases hl : (lastOf arg rest).type.wrappers.list with
      | false => exact ranges_parameter_single hvs hdc hg hl hcr
      | true =>
        have hsp := dropLast_concat_lastOf arg rest
        have hp : IsPlain (lastOf arg rest).type := by
          have hfr : Declares ctx args ((arg :: rest).dropLast ++ [lastOf arg rest]) := by
            rw [hsp]
            exact Declares.of_append hdc
          rw [names_eq_concat hsp] at hre
          exact isPlain_of_reached hvs hfr hre
        have hra := ranges_parameter_list hvs hdc hg hsp hp hcr
        simpa [clauses, hl] using hra

/-- The unwind clauses of the block range over exactly the objects given for the member, whatever
their order. -/
def Enumerates (ctx : Setting) (values : Entries) (argument : ArgumentDef) (rest : Route)
    (member : ArgumentDef) : Prop :=
  ∃ rows, ctx.rangesOver values argument rest member = some rows ∧
    rows.Perm ((reached (Route.names (argument :: (rest ++ [member]))) values).map fun entries =>
      some (.object entries))

lemma unwound_eq_map_givenBy {items : List Value}
    (his : ∀ item ∈ items, item = .null ∨ ∃ es, item = .object es) (hnu : .null ∉ items) :
    items = (items.filterMap entries?).map .object := by
  induction items with
  | nil => rfl
  | cons item rest ih =>
    have hr := ih (forall_mem_cons.mp his).2 fun hm => hnu (mem_cons_of_mem _ hm)
    rcases his item mem_cons_self with rfl | ⟨es, rfl⟩
    · simp at hnu
    · simpa [entries?] using hr

def HasNoNulls (above : List Name) (member : ArgumentDef) (values : Entries) : Prop :=
  ∀ entries ∈ reached above values, ∀ items, get? entries member.name =
    some (.list items) → .null ∉ items

lemma unwoundBelow_eq {above : Route} (hvs : HasMembers ctx args values)
    (hdc : Declares ctx args (above ++ [m])) (hp : IsPlain m.type)
    (hnu : HasNoNulls above.names m values) : unwoundBelow above.names m values =
      (reached (above.names ++ [m.name]) values).map fun es => some (.object es) := by
  rw [unwoundBelow, reached_concat, map_flatMap, flatMap_def, flatMap_def]
  congr 1
  refine map_congr_left fun es hes => ?_
  obtain ⟨ms, hms, hm, below, hbe, _⟩ := hasMembers_of_reaches hvs hdc (mem_reached_iff.mp hes)
  have ht := hms m hm
  have hnl : .null ∉ unwound (under es m.name) := by
    cases hv : get? es m.name with
    | none => simp [under, hv, unwound]
    | some value =>
      cases value with
      | list items => simpa [under, hv, unwound] using hnu es hes items hv
      | _ => simp [under, hv, unwound]
  have his := unwound_eq_map_givenBy (fun item => object_or_null_of_mem_unwound hp ht hbe) hnl
  rw [his, givenBy_eq_filterMap, map_map]
  rfl

/-- Where the values give objects for a member, its unwind clauses range over exactly these if and
only if no list is passed on the way and no list given for the member holds a null. -/
lemma enumerates_iff (hns : Route.HasNames (arg :: (rest ++ [m])))
    (hvs : HasMembers ctx args values)
    (hdc : Declares ctx args (arg :: (rest ++ [m])))
    (hg : CanFollow values (names (arg :: (rest ++ [m])))) :
    Enumerates ctx values arg rest m ↔
      (∀ step ∈ (ctx.access arg rest).crossed, step.type.wrappers.list = false) ∧
        HasNoNulls (names (arg :: rest)) m values := by
  have hab : Declares ctx args ((arg :: rest) ++ [m]) := hdc
  have ht : names (arg :: (rest ++ [m])) = names (arg :: rest) ++ [m.name] := by
    simp [names]
  obtain ⟨given, hre⟩ := exists_reaches_of_canFollow hg
  have hm := mem_reached_iff.mpr hre
  rw [ht] at hm
  have hp := isPlain_of_reached hvs hab hm
  rw [reached_concat, mem_flatMap] at hm
  obtain ⟨object, hrc, _⟩ := hm
  obtain ⟨hok, hno⟩ := rangesOver_eq hvs hdc hns hrc
  unfold Enumerates
  rw [ht]
  constructor
  · rintro ⟨rows, hrw, hpr⟩
    have hcr : ∀ step ∈ (ctx.access arg rest).crossed, step.type.wrappers.list = false := by
      intro step hst
      cases hl : step.type.wrappers.list with
      | false => rfl
      | true => simp [hno ⟨step, hst, hl⟩] at hrw
    refine ⟨hcr, ?_⟩
    -- a null in a list is a row, but no object
    intro es hes items his hnl
    have hrow : some null ∈ rows := by
      have heq : rows = unwoundBelow (arg.name :: names rest) m values := by
        simpa [hok hcr] using hrw.symm
      rw [heq, unwoundBelow, mem_flatMap]
      exact ⟨es, hes, by simpa [under, his, unwound] using hnl⟩
    have hobj := hpr.mem_iff.mp hrow
    simp at hobj
  · rintro ⟨hcr, hnu⟩
    refine ⟨_, hok hcr, ?_⟩
    rw [← unwoundBelow_eq hvs hab hp hnu]
    exact Perm.refl _

/-- In a successful run on typed values, the unwind clauses of a block range over exactly the
objects given for its member if and only if no list is passed on the way from the enclosing block or
the argument, and no list given for the member holds a null. -/
theorem unwinding_enumerates_iff {setting : Setting} {arguments : List ArgumentDef}
    (hnames : HasNames setting arguments) {values : List (Name × Value)} (hvalues : HasMembers setting arguments values)
    (hkeys : HasDistinctKeys (.object values)) {text : String}
    (hrun : (blocksText setting arguments values "").outcome = .ok text) :
    ∃ layouts, text = Block.texts (Layout.toBlocks setting {} layouts) ∧
      (HasUniformLists (.object values) →
        ∀ route, route ∈ Layout.allRoutes layouts ↔ Active setting arguments values route) ∧
      ∀ argument rest member, argument :: (rest ++ [member]) ∈ Layout.allRoutes layouts →
        (Enumerates setting values argument rest member ↔
          (∀ step ∈ (setting.access argument rest).crossed, step.type.wrappers.list = false) ∧
            HasNoNulls (Route.names (argument :: rest)) member values) := by
  obtain ⟨keys, htext, hmem⟩ := exists_keys_of_blocksText hkeys hrun
  refine ⟨_, htext, ?_, ?_⟩
  · intro huniform route
    rw [hmem, active_iff huniform]
  · intro argument rest member hroute
    obtain ⟨hdeclared, hfollow, _⟩ := (hmem _).mp hroute
    exact enumerates_iff (hnames.route hdeclared) hvalues hdeclared hfollow

/-! ## Lists that are passed -/

lemma hasMembers_sample : HasMembers sampleSetting sampleArguments sampleValues := by
  have hsc : ∀ name value, sampleTypes.get? name = none →
      HasType sampleSetting (.named name false) value :=
    fun name value hno => .other hno
  have hem : HasType sampleSetting (.named "BInput" false) (.object []) :=
    .object rfl (forall_mem_singleton.mpr (.null _))
  have hc : HasType sampleSetting (.list (.named "CInput" false) false)
      (.list [.object [("name", .text "c1")]]) :=
    .list (forall_mem_singleton.mpr (.object rfl (forall_mem_singleton.mpr (hsc _ _ rfl))))
  have hb : HasType sampleSetting (.list (.named "BInput" false) false)
      (.list [.object [], .object [("c", .list [.object [("name", .text "c1")]])]]) :=
    .list (by simpa using ⟨hem, .object rfl (forall_mem_singleton.mpr hc)⟩)
  have hwr : HasType sampleSetting (.named "WInput" false) (.object [("b", .object [])]) :=
    .object rfl (forall_mem_singleton.mpr hem)
  have h1 : HasType sampleSetting (.named "AInput" false)
      (.object [("name", .text "a1"), ("wrap", .object [("b", .object [])])]) :=
    .object rfl (by simpa using ⟨hsc _ _ rfl, .null _, hsc _ _ rfl, hwr⟩)
  have h2 : HasType sampleSetting (.named "AInput" false)
      (.object [("b", .list [.object [],
        .object [("c", .list [.object [("name", .text "c1")]])]])]) :=
    .object rfl (by simpa using ⟨hsc _ _ rfl, hb, hsc _ _ rfl, .null _⟩)
  exact forall_mem_singleton.mpr (.list (by simpa using ⟨h1, h2⟩))

lemma hasNames_sample : HasNames sampleSetting sampleArguments := .of_types (by decide +kernel)

/-- The sample passes the list `data` on the way to `b` behind `wrap`, but not on the way to `b`
itself. -/
theorem unwinding_enumerates_sample :
    ∃ layouts, sampleText = Block.texts (Layout.toBlocks sampleSetting {} layouts) ∧
      [sampleData, sampleList] ∈ Layout.allRoutes layouts ∧
      [sampleData, sampleWrap, sampleHidden] ∈ Layout.allRoutes layouts ∧
      Enumerates sampleSetting sampleValues sampleData [] sampleList ∧
      ¬ Enumerates sampleSetting sampleValues sampleData [sampleWrap] sampleHidden := by
  have huniform : HasUniformLists (.object sampleValues) := .of_parts (by decide +kernel)
  have hrun : (blocksText sampleSetting sampleArguments sampleValues "").outcome = .ok sampleText :=
    ok_of_toOption (by decide +kernel)
  obtain ⟨layouts, htext, hactive, hiff⟩ :=
    unwinding_enumerates_iff hasNames_sample hasMembers_sample hasDistinctKeys_sample hrun
  have hactive := hactive huniform
  have hlist : [sampleData, sampleList] ∈ Layout.allRoutes layouts := by
    refine (hactive _).mpr ⟨?_, [sampleData], sampleList, rfl, by decide, ?_⟩
    · exact ⟨mem_cons_self, _, rfl, by simp, _, rfl, trivial⟩
    · exact ⟨_, _, .step rfl (Or.inr ⟨_, rfl, mem_cons_of_mem _ mem_cons_self⟩) (.here _), rfl,
        Or.inr ⟨_, rfl, by simp, by simp [isObject]⟩⟩
  have hhidden : [sampleData, sampleWrap, sampleHidden] ∈ Layout.allRoutes layouts := by
    refine (hactive _).mpr ⟨?_, [sampleData, sampleWrap], sampleHidden, rfl, by decide, ?_⟩
    · exact ⟨mem_cons_self, _, rfl, by simp, _, rfl, mem_cons_self, _, rfl, trivial⟩
    · exact ⟨_, _, .step rfl (Or.inr ⟨_, rfl, mem_cons_self⟩) (.step rfl (Or.inl rfl) (.here _)),
        rfl, Or.inl ⟨_, rfl⟩⟩
  refine ⟨layouts, htext, hlist, hhidden, ?_, ?_⟩
  · refine (hiff sampleData [] sampleList hlist).mpr ⟨by decide +kernel, ?_⟩
    intro entries hentries items hitems
    simp [names, reached, sampleData, sampleValues, under, get?, givenBy, entries?] at hentries
    rcases hentries with rfl | rfl
    · simp [sampleList, get?] at hitems
    · simp [sampleList, get?] at hitems
      simp [← hitems]
  · intro henumerates
    have hcrossed := ((hiff sampleData [sampleWrap] sampleHidden hhidden).mp henumerates).1
    exact absurd hcrossed (by decide +kernel)

end GraphApi.Nested
