import GraphApi.Proofs.Cypher.Range
import GraphApi.Proofs.Nested.Coverage

/-!
# How a block reaches its values

A block reaches its values over the variable of the block around it, over the variable as which the
root statement unwinds an argument, or over a parameter. Its unwind clauses read as those that
belong to this access (`unwindClauses?_unwinding`). Of values that fit their types members that are
no lists are passed (`properties?_fields`), and a list makes the expression undefined
(`properties?_through_list`).
-/

namespace GraphApi.Nested

open Cypher List Scope Route Unwind Setting Value

variable {above outer front rest : Route} {host arg m : ArgumentDef} {scope : Scope} {ctx : Setting}
  {type : TypeRef} {value : Value} {ms : List ArgumentDef} {object last : Entries}

/-! ## How values are reached -/

/-- How the values below a route are reached: over the variable of a block, over the variable as
which the root statement unwinds an argument, or over a parameter. -/
inductive Access where
  | block (outer : Route) (host : ArgumentDef) (front : Route)
  | item (arg : ArgumentDef) (rest : Route)
  | parameter (arg : ArgumentDef) (rest : Route)

def enclosing? : Route → Option (Route × ArgumentDef × Route)
  | [] => none
  | step :: rest =>
    match enclosing? rest with
    | some (outer, host, front) => some (step :: outer, host, front)
    | none => if memberIsComputed step then some ([], step, rest) else none

lemma enclosing?_none (h : enclosing? above = none) :
    ∀ step ∈ above, memberIsComputed step = false := by
  induction above with
  | nil => simp
  | cons step rest ih =>
    unfold enclosing? at h
    split at h
    · simp at h
    next hr =>
      intro other ho
      rcases mem_cons.mp ho with rfl | ho
      · simpa using h
      · exact ih hr other ho

lemma enclosing?_some (h : enclosing? above = some (outer, host, front)) :
    above = outer ++ host :: front ∧ memberIsComputed host ∧ ∀ step ∈ front,
      memberIsComputed step = false := by
  induction above generalizing outer with
  | nil => cases h
  | cons step rest ih =>
    unfold enclosing? at h
    split at h
    next inner host' front' hr =>
      obtain ⟨rfl, rfl, rfl⟩ : step :: inner = outer ∧ host' = host ∧
        front' = front := by simpa using h
      obtain ⟨hr, hhs, hfr⟩ := ih hr
      exact ⟨by simp [hr], hhs, hfr⟩
    next hno =>
      have hsp : memberIsComputed step ∧ [] = outer ∧ step = host ∧ rest = front := by simpa using h
      obtain ⟨hst, rfl, rfl, rfl⟩ := hsp
      exact ⟨rfl, hst, enclosing?_none hno⟩

/-- How the values below a route are reached that starts with an argument. -/
def Setting.access (ctx : Setting) (arg : ArgumentDef) (rest : Route) : Access :=
  match enclosing? (arg :: rest) with
  | some (outer, host, front) => .block outer host front
  | none => if ctx.usesVariable {} arg then .item arg rest else .parameter arg rest

def lastOf (arg : ArgumentDef) (rest : Route) : ArgumentDef := rest.getLast?.getD arg

def handedOn (type : Name) : Name := "_" ++ type

def Access.clauses (member : ArgumentDef) : Access → List Unwind
  | .block _ host front => [⟨⟨.bound (handedOn host.type.base), front.names ++ [member.name]⟩,
    member.type.base⟩]
  | .item arg rest => [⟨⟨.bound arg.type.base, rest.names ++ [member.name]⟩, member.type.base⟩]
  | .parameter arg rest =>
    let last := lastOf arg rest
    if last.type.wrappers.list then
      [⟨⟨.parameter arg.name, rest.names⟩, "_" ++ last.name⟩,
       ⟨⟨.bound ("_" ++ last.name), [member.name]⟩, member.type.base⟩]
    else [⟨⟨.parameter arg.name, rest.names ++ [member.name]⟩, member.type.base⟩]

/-! ## The scope of a route -/

lemma Setting.usesVariable_of_expression (ctx : Setting) (hex : scope.expression ≠ "")
    (m : ArgumentDef) : ctx.usesVariable scope m = scope.usesListVariable := by
  simp [usesVariable, usesListVariable, hex]

lemma Setting.scopeAt_fields (ctx : Setting) (hex : scope.expression ≠ "")
    (hfr : ∀ step ∈ front, memberIsComputed step = false) :
    (ctx.scopeAt scope front).expression = scope.expression ++ String.ofList (dotted front.names) ∧
      (ctx.scopeAt scope front).isRoot = scope.isRoot ∧ (ctx.scopeAt scope front).usesListVariable =
      scope.usesListVariable ∧
      (ctx.scopeAt scope front).parentField = (front.getLast?.map (·.name)).getD scope.parentField ∧
      (ctx.scopeAt scope front).parentIsList =
        (front.getLast?.map fun last => scope.isRoot && last.type.wrappers.list).getD
        scope.parentIsList := by
  induction front generalizing scope with
  | nil => simp [dotted, names]
  | cons step rest ih =>
    have hst : memberIsComputed step = false := hfr step mem_cons_self
    have hen : ctx.enter scope step = scope.enterField step.name
        (scope.expression ++ "." ++ step.name)
        (scope.isRoot && step.type.wrappers.list) scope.usesListVariable := by
      simp [enter, hst, ctx.usesVariable_of_expression hex, parameter, hex]
    have hne : (ctx.enter scope step).expression ≠ "" := by
      simp [hen, enterField, hex]
    obtain ⟨h1, h2, h3, h4, h5⟩ := ih hne (forall_mem_cons.mp hfr).2
    have hcons : ctx.scopeAt scope (step :: rest) = ctx.scopeAt (ctx.enter scope step) rest := rfl
    rw [hcons, h1, h2, h3, h4, h5, hen]
    -- the last member decides the enclosing field, and whether it is a list
    refine ⟨?_, rfl, rfl, ?_, ?_⟩
    · apply String.toList_inj.mp
      simp [enterField, dotted, names]
    · cases hl : rest.getLast? <;> simp [enterField, getLast?_cons, hl]
    · cases hl : rest.getLast? <;> simp [enterField, getLast?_cons, hl]

lemma Setting.scopeAt_block (ctx : Setting) (start : Scope) (outer : Route)
    (hhs : memberIsComputed host)
    (ht : host.type.base ≠ "") (hfr : ∀ step ∈ front, memberIsComputed step = false) :
    (ctx.scopeAt start (outer ++ host :: front)).expression = host.type.base ++
      String.ofList (dotted front.names) ∧
      (ctx.scopeAt start (outer ++ host :: front)).isRoot = false := by
  have hsp : ctx.scopeAt start (outer ++ host :: front) =
      ctx.scopeAt (ctx.enter (ctx.scopeAt start outer) host) front := by
    simp [scopeAt]
  have hex : (ctx.enter (ctx.scopeAt start outer) host).expression ≠ "" := by
    simpa [enter, hhs, enterBlock] using ht
  obtain ⟨h1, h2, _⟩ := ctx.scopeAt_fields hex hfr
  rw [hsp, h1, h2]
  simp [enter, hhs, enterBlock]

lemma Setting.scopeAt_argument (ctx : Setting) (hn : arg.name ≠ "") (ht : arg.type.base ≠ "")
    (hab : ∀ step ∈ arg :: rest, memberIsComputed step = false) :
    (ctx.scopeAt {} (arg :: rest)).expression =
        (if ctx.usesVariable {} arg then arg.type.base else arg.name) ++
        String.ofList (dotted (names rest)) ∧
      (ctx.scopeAt {} (arg :: rest)).isRoot ∧
      (ctx.scopeAt {} (arg :: rest)).usesListVariable = ctx.usesVariable {} arg ∧
      (ctx.scopeAt {} (arg :: rest)).parentField = (lastOf arg rest).name ∧
      (ctx.scopeAt {} (arg :: rest)).parentIsList = (lastOf arg rest).type.wrappers.list := by
  have harg : memberIsComputed arg = false := hab arg mem_cons_self
  have hen : ctx.enter {} arg = enterField {} arg.name
      (if ctx.usesVariable {} arg then arg.type.base else arg.name) arg.type.wrappers.list
      (ctx.usesVariable {} arg) := by
    simp [enter, harg, parameter]
  have hex : (ctx.enter {} arg).expression ≠ "" := by
    rw [hen]
    cases ctx.usesVariable {} arg <;> simpa [enterField]
  obtain ⟨h1, h2, h3, h4, h5⟩ := ctx.scopeAt_fields hex (forall_mem_cons.mp hab).2
  have hcons : ctx.scopeAt {} (arg :: rest) = ctx.scopeAt (ctx.enter {} arg) rest := rfl
  rw [hcons, h1, h2, h3, h4, h5, hen]
  refine ⟨rfl, rfl, rfl, ?_, ?_⟩
  · cases hl : rest.getLast? <;> simp [enterField, lastOf, hl]
  · cases hl : rest.getLast? <;> simp [enterField, lastOf, hl]

/-! ## The clauses of a route -/

def Route.HasNames (route : Route) : Prop :=
  ∀ step ∈ route, IsName step.name ∧ IsName step.type.base

lemma Route.HasNames.isName {route : Route} (hns : route.HasNames) :
    ∀ name ∈ route.names, IsName name := by
  refine forall_mem_map.mpr fun step hst => ?_
  exact (hns step hst).1

lemma isName_underscore {name : Name} (hn : IsName name) : IsName ("_" ++ name) := by
  refine ⟨by simp, ?_⟩
  intro c hc
  have hca : c = '_' ∨ c ∈ name.toList := by simpa using hc
  rcases hca with rfl | hc
  · decide
  · exact hn.2 c hc

lemma isName_of_mem_concat {route : Route} (hns : HasNames (route ++ [m])) :
    ∀ name ∈ route.names ++ [m.name], IsName name := by
  have hrt : route.names ++ [m.name] = (route ++ [m]).names := by simp [names]
  rw [hrt]
  exact hns.isName

lemma unwindClauses?_block (hhs : memberIsComputed host)
    (hfr : ∀ step ∈ front, memberIsComputed step = false) (hht : IsName host.type.base)
    (hns : HasNames (front ++ [m])) :
    unwindClauses? (ctx.unwinding (ctx.scopeAt {} (outer ++ host :: front)) m) =
      some ((Access.block outer host front).clauses m) := by
  obtain ⟨hex, hro⟩ := ctx.scopeAt_block {} outer hhs hht.1 hfr
  have hcl : HasNames ⟨⟨.bound (handedOn host.type.base), front.names ++ [m.name]⟩, m.type.base⟩ :=
    ⟨⟨isName_underscore hht, isName_of_mem_concat hns⟩, (hns m (by simp)).2⟩
  refine unwindClauses?_one hcl (by decide : "AS".toList ∈ asWords) ?_
  simp [unwinding, unwindClause, parameter, hex, hro, hht.1, Unwind.text, PathExpr.text, Root.text,
    handedOn, unwindWord, dotted]

lemma unwindClauses?_argument (hab : ∀ step ∈ arg :: rest, memberIsComputed step = false)
    (hns : HasNames (arg :: (rest ++ [m]))) :
    unwindClauses? (ctx.unwinding (ctx.scopeAt {} (arg :: rest)) m) =
      some ((if ctx.usesVariable {} arg then Access.item arg rest
        else Access.parameter arg rest).clauses m) := by
  obtain ⟨harg, hat⟩ := hns arg mem_cons_self
  have hbe : HasNames (rest ++ [m]) := (forall_mem_cons.mp hns).2
  obtain ⟨hm, ht⟩ := hbe m (by simp)
  obtain ⟨hex, hro, hus, hf, hlist⟩ := ctx.scopeAt_argument harg.1 hat.1 hab
  have hne : (ctx.scopeAt {} (arg :: rest)).expression ≠ "" := by
    rw [hex]
    split <;> simp [harg.1, hat.1]
  have huv : ctx.usesVariable (ctx.scopeAt {} (arg :: rest)) m = ctx.usesVariable {} arg := by
    rw [ctx.usesVariable_of_expression hne, hus]
  have has : "AS".toList ∈ asWords ∧ "as".toList ∈ asWords := by decide
  cases hun : ctx.usesVariable {} arg with
  | true =>
    have hcl : HasNames ⟨⟨.bound arg.type.base, names rest ++ [m.name]⟩, m.type.base⟩ :=
      ⟨⟨hat, isName_of_mem_concat hbe⟩, ht⟩
    refine unwindClauses?_one hcl has.1 ?_
    simp [unwinding, unwindClause, parameter, hex, hro, huv, hun, hat.1, Unwind.text, PathExpr.text,
      Root.text, unwindWord, dotted]
  | false =>
    have hl : IsName (lastOf arg rest).name := by
      unfold lastOf
      cases hl : rest.getLast? with
      | none => exact harg
      | some last => exact (hbe last (mem_append_left _ (mem_of_getLast? hl))).1
    cases hil : (lastOf arg rest).type.wrappers.list with
    | true =>
      -- the list directly above the member is unwound by a clause of its own
      have h1 : HasNames ⟨⟨.parameter arg.name, names rest⟩, "_" ++ (lastOf arg rest).name⟩ := by
        refine ⟨⟨harg, ?_⟩, isName_underscore hl⟩
        exact HasNames.isName fun step hst => hbe step (mem_append_left _ hst)
      have h2 : HasNames ⟨⟨.bound ("_" ++ (lastOf arg rest).name), [m.name]⟩, m.type.base⟩ := by
        refine ⟨⟨isName_underscore hl, ?_⟩, ht⟩
        intro name hn
        exact mem_singleton.mp hn ▸ hm
      have htx : (ctx.unwinding (ctx.scopeAt {} (arg :: rest)) m).toList =
          text "AS".toList ⟨⟨.parameter arg.name, names rest⟩, "_" ++ (lastOf arg rest).name⟩ ++
            '\n' :: ' ' :: ' ' :: text "as".toList
              ⟨⟨.bound ("_" ++ (lastOf arg rest).name), [m.name]⟩, m.type.base⟩ := by
        simp [unwinding, unwindClause, parameter, hex, hro, huv, hun,
          harg.1, hf, hlist, hil, Unwind.text, PathExpr.text, Root.text, unwindWord, dotted]
      simpa [Access.clauses, hil] using unwindClauses?_two h1 h2 has.1 has.2 htx
    | false =>
      have hcl : HasNames ⟨⟨.parameter arg.name, names rest ++ [m.name]⟩, m.type.base⟩ :=
        ⟨⟨harg, isName_of_mem_concat hbe⟩, ht⟩
      have htx : (ctx.unwinding (ctx.scopeAt {} (arg :: rest)) m).toList = text "AS".toList
          ⟨⟨.parameter arg.name, names rest ++ [m.name]⟩, m.type.base⟩ := by
        simp [unwinding, unwindClause, parameter, hex, hro, huv, hun,
          harg.1, hlist, hil, Unwind.text, PathExpr.text, Root.text, unwindWord, dotted]
      simpa [Access.clauses, hil] using unwindClauses?_one hcl has.1 htx

/-- The unwind clauses of a block are those that belong to how it reaches its values. -/
theorem unwindClauses?_unwinding (hns : HasNames (arg :: (rest ++ [m]))) :
    unwindClauses? (ctx.unwinding (ctx.scopeAt {} (arg :: rest)) m) =
      some ((ctx.access arg rest).clauses m) := by
  unfold access
  split
  next outer host front henc =>
    obtain ⟨hab, hhs, hfr⟩ := enclosing?_some henc
    rw [← cons_append, hab, append_assoc] at hns
    have hbe : HasNames (host :: (front ++ [m])) := fun step hst =>
      hns step (mem_append_right _ hst)
    rw [hab]
    exact unwindClauses?_block hhs hfr (hbe host mem_cons_self).2 fun step hst =>
      hbe step (mem_cons_of_mem _ hst)
  next henc => exact unwindClauses?_argument (enclosing?_none henc) hns

/-- The arguments, the members of input types, and the types of both have names. -/
structure HasNames (ctx : Setting) (arguments : List ArgumentDef) : Prop where
  arguments : Route.HasNames arguments
  members : ∀ type members, ctx.members type = some members → Route.HasNames members

lemma HasNames.of_types {types : NameMap (List ArgumentDef)} {args : List ArgumentDef}
    (h : ∀ ms ∈ args :: types.values, ∀ step ∈ ms, IsName step.name ∧ IsName step.type.base) :
    HasNames { members := types.get? } args :=
  ⟨h _ mem_cons_self, fun _ _ hg =>
    h _ (mem_cons_of_mem _ (mem_map_of_mem (NameMap.mem_of_get? hg)))⟩

lemma HasNames.route {route : Route} {ms : List ArgumentDef} (hns : HasNames ctx ms)
    (hd : Declares ctx ms route) : route.HasNames := by
  induction route generalizing ms with
  | nil => simp [Route.HasNames]
  | cons step rest ih =>
    obtain ⟨hst, below, hbe, hr⟩ := hd
    intro other ho
    rcases mem_cons.mp ho with rfl | ho
    · exact hns.arguments other hst
    · exact ih ⟨hns.members _ below hbe, hns.members⟩ hr other ho

/-! ## Typed values -/

/-- The value fits the type. Null fits every type; of a type that is not an input type nothing is
asked. -/
inductive HasType (ctx : Setting) : TypeRef → Value → Prop
  | null (type : TypeRef) : HasType ctx type .null
  | list {item : TypeRef} {required : Bool} {items : List Value}
      (hitems : ∀ value ∈ items, HasType ctx item value) :
      HasType ctx (.list item required) (.list items)
  | object {name : Name} {required : Bool} {members : List ArgumentDef} {entries : Entries}
      (hmembers : ctx.members name = some members)
      (hentries : ∀ member ∈ members, HasType ctx member.type (under entries member.name)) :
      HasType ctx (.named name required) (.object entries)
  | other {name : Name} {required : Bool} {value : Value} (hmembers : ctx.members name = none) :
      HasType ctx (.named name required) value

def HasMembers (ctx : Setting) (members : List ArgumentDef) (entries : Entries) : Prop :=
  ∀ member ∈ members, HasType ctx member.type (under entries member.name)

lemma HasType.object_or_null (ht : HasType ctx type value) (hl : type.wrappers.list = false)
    (hms : ctx.members type.base = some ms) :
    value = .null ∨ ∃ es, value = .object es ∧ HasMembers ctx ms es := by
  cases ht with
  | null => exact .inl rfl
  | list => cases hl
  | object hfo hes =>
    have heq := hms.symm.trans hfo
    cases heq
    exact .inr ⟨_, rfl, hes⟩
  | other hno =>
    have heq := hms.symm.trans hno
    cases heq

lemma HasType.list_or_null (ht : HasType ctx type value)
    (hl : type.wrappers.list) : value = .null ∨ ∃ items, value = .list items := by
  cases ht with
  | null => exact .inl rfl
  | list => exact .inr ⟨_, rfl⟩
  | object => cases hl
  | other => cases hl

/-! ## The objects that are reached -/

/-- The objects that a value gives: itself, or the objects among the items of a list. -/
def givenBy : Value → List Entries
  | .object entries => [entries]
  | .list items => items.filterMap entries?
  | _ => []

/-- The objects that are reached from an object by following names, through any item of any list on
the way. -/
def reached : List Name → Entries → List Entries
  | [], entries => [entries]
  | name :: rest, entries => (givenBy (under entries name)).flatMap (reached rest)

lemma mem_givenBy_iff : object ∈ givenBy value ↔ value.Gives object := by
  have hes : ∀ item : Value, item.entries? = some object ↔ item = .object object := by
    intro item
    cases item <;> simp [entries?]
  cases value with
  | list items => simp [givenBy, Gives, hes]
  | object es => simp [givenBy, Gives, eq_comm]
  | _ => simp [givenBy, Gives]

lemma mem_reached_iff {names : List Name} :
    last ∈ reached names object ↔ Reaches object names last := by
  induction names generalizing object with
  | nil =>
    constructor
    · intro h
      have heq : last = object := by simpa [reached] using h
      exact heq ▸ .here object
    · intro h
      cases h
      exact mem_singleton_self _
  | cons name rest ih =>
    rw [reached, mem_flatMap]
    constructor
    · rintro ⟨next, hnx, hr⟩
      have hgi := mem_givenBy_iff.mp hnx
      cases hv : NameMap.get? object name with
      | none => simp [under, hv, givenBy] at hnx
      | some value => exact .step hv (by simpa [under, hv] using hgi) (ih.mp hr)
    · intro h
      cases h with
      | step hv hgi hr =>
        exact ⟨_, mem_givenBy_iff.mpr (by simpa [under, hv] using hgi), ih.mpr hr⟩

lemma reached_append (fst snd : List Name) (object : Entries) :
    reached (fst ++ snd) object = (reached fst object).flatMap (reached snd) := by
  induction fst generalizing object with
  | nil => simp [reached]
  | cons name rest ih =>
    rw [cons_append, reached, reached, flatMap_assoc]
    exact congrArg (fun step => (givenBy (under object name)).flatMap step) (funext ih)

lemma HasType.hasMembers (ht : HasType ctx type value) (hms : ctx.members type.base = some ms)
    (hgi : value.Gives object) : HasMembers ctx ms object := by
  rcases hgi with rfl | ⟨items, rfl, hi⟩
  · cases ht with
    | object hfo hes =>
      cases hms.symm.trans hfo
      exact hes
    | other hno => cases hms.symm.trans hno
  · cases ht with
    | list his =>
      cases his _ hi with
      | object hfo hes =>
        cases hms.symm.trans hfo
        exact hes
      | other hno => cases hms.symm.trans hno
    | other hno => cases hms.symm.trans hno

lemma hasMembers_of_reaches {rest : Route} (hobj : HasMembers ctx ms object)
    (hd : Declares ctx ms (front ++ rest)) (hre : Reaches object front.names last) :
    ∃ below, HasMembers ctx below last ∧ Declares ctx below rest := by
  induction front generalizing ms object with
  | nil =>
    cases hre
    exact ⟨ms, hobj, hd⟩
  | cons step os ih =>
    obtain ⟨hst, below, hbe, hos⟩ := hd
    cases hre with
    | step hv hgi hr =>
      have ht := hobj step hst
      rw [under, hv] at ht
      exact ih (ht.hasMembers hbe hgi) hos hr

/-! ## Reading properties -/

/-- Properties that are read one after the other reach the values below them. -/
theorem properties?_fields (hobj : HasMembers ctx ms object) (hd : Declares ctx ms (front ++ [m]))
    (hfr : ∀ step ∈ front, step.type.wrappers.list = false) :
    ∃ value, properties? (.object object) (front.names ++ [m.name]) = some value ∧
      unwound value = (reached front.names object).flatMap fun last =>
      unwound (under last m.name) := by
  induction front generalizing ms object with
  | nil => exact ⟨under object m.name, rfl, by simp [names, reached]⟩
  | cons step rest ih =>
    obtain ⟨hst, below, hbe, hr⟩ := hd
    have hl := hfr step mem_cons_self
    rcases (hobj step hst).object_or_null hl hbe with hnu | ⟨inner, hin, hms⟩
    · -- a property of null is null, and null is unwound to nothing
      refine ⟨.null, ?_, ?_⟩
      · simp [names, properties?_object, hnu]
      · simp [names, reached, hnu, givenBy, unwound]
    · obtain ⟨value, hv, hun⟩ := ih hms hr (forall_mem_cons.mp hfr).2
      refine ⟨value, ?_, ?_⟩
      · simpa [names, properties?_object, hin] using hv
      · simpa [names, reached, hin, givenBy] using hun

/-- A list on the way has no properties, so nothing is reached through it. -/
theorem properties?_through_list (hobj : HasMembers ctx ms object)
    (hd : Declares ctx ms (front ++ [m])) (hre : Reaches object front.names last)
    (hl : ∃ step ∈ front, step.type.wrappers.list) :
    properties? (.object object) (front.names ++ [m.name]) = none := by
  induction front generalizing ms object with
  | nil => simp at hl
  | cons step rest ih =>
    obtain ⟨hst, below, hbe, hr⟩ := hd
    cases hre with
    | @step _ next _ _ _ value hv hgi hnx =>
      have ht := hobj step hst
      have hun : under object step.name = value := by simp [under, hv]
      rw [hun] at ht
      have hns : names (step :: rest) ++ [m.name] = step.name :: (names rest ++ [m.name]) := rfl
      rw [hns, properties?_object, hun]
      cases hil : step.type.wrappers.list with
      | true =>
        -- the value is a list, and there is at least one more property to read
        rcases ht.list_or_null hil with rfl | ⟨items, rfl⟩
        · simp [Gives] at hgi
        · cases hrn : names rest ++ [m.name] with
          | nil => simp at hrn
          | cons name os => exact properties?_list items name os
      | false =>
        rcases ht.object_or_null hil hbe with rfl | ⟨inner, rfl, hms⟩
        · simp [Gives] at hgi
        · obtain rfl : inner = next := by simpa [Gives] using hgi
          obtain ⟨other, ho, hol⟩ := hl
          rcases mem_cons.mp ho with rfl | ho
          · simp [hil] at hol
          · exact ih hms hr hnx ⟨other, ho, hol⟩

/-! ## Rows of objects -/

def IsPlain : TypeRef → Prop
  | .named .. => True
  | .list (.named ..) _ => True
  | .list (.list ..) _ => False

lemma isPlain_of_gives (ht : HasType ctx type value) (hgi : value.Gives object) : IsPlain type := by
  cases type with
  | named => trivial
  | list item required =>
    rcases hgi with rfl | ⟨items, rfl, hi⟩
    · cases ht
    · cases ht with
      | list his =>
        cases his _ hi with
        | object => trivial
        | other => trivial

lemma object_or_null_of_mem_unwound (hp : IsPlain type) (ht : HasType ctx type value)
    (hms : ctx.members type.base = some ms) {item : Value} (hi : item ∈ unwound value) :
    item = .null ∨ ∃ es, item = .object es := by
  cases ht with
  | null => cases hi
  | object => exact .inr ⟨_, mem_singleton.mp hi⟩
  | other hno => cases hms.symm.trans hno
  | @list inner _ _ his =>
    cases his item hi with
    | null => exact .inl rfl
    | object => exact .inr ⟨_, rfl⟩
    | list => exact absurd hp (by simp [IsPlain])
    | other hno => cases hms.symm.trans hno

lemma givenBy_eq_filterMap (value : Value) :
    givenBy value = (unwound value).filterMap entries? := by
  cases value <;> simp [givenBy, unwound, entries?]

lemma joinAll?_objects {β : Type} {step : Value → Option (List β)} {res : Entries → List β}
    {items : List Value} (his : ∀ item ∈ items, item = .null ∨ ∃ es, item = .object es)
    (hnu : step .null = some [])
    (hobj : ∀ es ∈ items.filterMap entries?, step (.object es) = some (res es)) :
    joinAll? step items = some ((items.filterMap entries?).flatMap res) := by
  induction items with
  | nil => rfl
  | cons item rest ih =>
    have hr := (forall_mem_cons.mp his).2
    rcases his item mem_cons_self with rfl | ⟨es, rfl⟩
    · have hsk : (null :: rest).filterMap entries? = rest.filterMap entries? := rfl
      rw [hsk] at hobj ⊢
      simp [joinAll?, hnu, ih hr hobj]
    · have hall : ∀ other ∈ es :: rest.filterMap entries?, step (.object other) =
          some (res other) := by
        simpa [entries?] using hobj
      have hnx := ih hr (forall_mem_cons.mp hall).2
      simp [joinAll?, hall es mem_cons_self, hnx, entries?]

end GraphApi.Nested
