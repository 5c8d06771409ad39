import GraphApi.Proofs.Api.Members

/-!
# Authorization of generated operations

Every field that an operation type gains asks for the scopes of what it does (`Catalog.Acts`,
`Access.scopes`), if scopes are in use. Main statement: `Document.authorized_of_augment`.
-/

namespace GraphApi

open List

/-- What a generated operation does to nodes and relationships. -/
inductive Access where
  | read | create | update | delete | merge
deriving DecidableEq, Repr

namespace Access

def word : Access → String
  | read => "Read"
  | create => "Create"
  | update => "Update"
  | delete => "Delete"
  | merge => "Merge"

/-- The word for an access in front of the name of a type. -/
def key : Access → String
  | read => "read"
  | create => "create"
  | update => "update"
  | delete => "delete"
  | merge => "merge"

def scopes (access : Access) (types : List Name) : List String :=
  types.flatMap fun type => [type ++ ": " ++ access.word, access.key ++ ":" ++ Text.lower type]

def directive (access : Access) (types : List Name) : Directive :=
  { name := "hasScope",
    arguments := [("scopes", .list ((access.scopes types).map (.text · false)))] }

end Access

def NodeAction.access : NodeAction → Access
  | .create => .create
  | .update => .update
  | .delete => .delete
  | .merge => .merge

/-- What a mutation of a relationship does to the nodes at its ends: to add one creates, and to
remove one deletes. -/
def RelationshipAction.access : RelationshipAction → Access
  | .add => .create
  | .remove => .delete
  | .update => .update
  | .merge => .merge

def Relationship.ends (rel : Relationship) : List Name :=
  if rel.sourceType = rel.targetType then [rel.sourceType]
  else [rel.sourceType, rel.targetType]

/-- What a generated field of an operation type does, and to nodes of which types. A mutation of a
relationship is told from one of a node type by the directive that names the two ends. -/
inductive Catalog.Acts (cat : Catalog) (field : FieldDef) :
    OperationKind → Access → List Name → Prop
  | query {owner : TypeDef} (hnode : owner ∈ cat.nodes) (haug : cat.augments .query owner.name)
      (hname : field.name = owner.name) : Acts cat field .query .read [owner.name]
  | node {owner : TypeDef} (action : NodeAction) (hnode : owner ∈ cat.nodes)
      (haug : cat.augments .mutation owner.name) (hname : field.name = action.word ++ owner.name)
      (hmeta : field.marked .mutationMeta = false) :
      Acts cat field .mutation action.access [owner.name]
  | relationship {owner : TypeDef} {member : FieldDef} {rel : Relationship}
      (action : RelationshipAction) (hnode : owner ∈ cat.nodes)
      (hmember : member ∈ cat.membersOf owner) (hrelates : cat.Relates owner member rel)
      (hmutable : rel.isMutable cat)
      (hname : field.name = action.word ++ owner.name ++ Text.capitalize member.name)
      (hmeta : buildMutationMeta rel.name rel.sourceType rel.targetType ∈ field.directives) :
      Acts cat field .mutation action.access rel.ends

/-- A generated field asks for the scopes of what it does exactly if scopes are in use. -/
def Catalog.Authorizes (cat : Catalog) (kind : OperationKind) (field : FieldDef) : Prop :=
  ∃ access types, cat.Acts field kind access types ∧
    field.directives.filter (·.name == "hasScope") =
      if cat.settings.enablesAuth .hasScope then [access.directive types] else []

/-! ## Directives -/

lemma Literal.ofValues_texts (texts : List String) :
    ofValues (texts.map Value.text) = texts.map (Literal.text · false) := by
  induction texts with
  | nil => rfl
  | cons text rest ih => rw [map_cons, ofValues, ih, map_cons, ofValue]

lemma scopesOf_word (access : Access) (type : Name) :
    scopesOf access.word type = access.scopes [type] := by
  have hlo : Text.lower access.word = access.key := by cases access <;> decide +kernel
  simp [scopesOf, Access.scopes, hlo]

lemma keys_ofList_pair (fst snd : Name) :
    (NameMap.ofList [(fst, ()), (snd, ())]).keys = if fst = snd then [fst] else [fst, snd] := by
  unfold NameMap.ofList
  by_cases h : fst = snd <;> simp [NameMap.insert, NameMap.keys, h]

variable (cfg : Settings) (access : Access) (types : List Name)

lemma operationDirectives_eq : operationDirectives cfg access.word types =
    if cfg.enablesAuth .hasScope then [access.directive (NameMap.ofList (types.map (·, ()))).keys]
    else [] := by
  have hsc (names : List Name) : names.flatMap (scopesOf access.word) = access.scopes names := by
    exact flatMap_congr fun type _ => by rw [scopesOf_word, Access.scopes, flatMap_singleton]
  unfold operationDirectives Access.directive
  simp only [hsc, Literal.ofValue, Literal.ofValues_texts, AuthKind.word]

lemma filter_operationDirectives : (operationDirectives cfg access.word types).filter
    (·.name == "hasScope") = operationDirectives cfg access.word types := by
  rw [operationDirectives_eq]
  split
  · simp [Access.directive]
  · rfl

/-! ## Generated fields -/

namespace Catalog

variable {cat : Catalog} {owner : TypeDef}

lemma authorizes_nodeQueryField (hno : owner ∈ cat.nodes)
    (haug : cat.augments .query owner.name) (infos : List FieldInfo) (kind : TypeKind) :
    cat.Authorizes .query ((nodeQueryField cat owner.name infos).retargetIn cat.settings kind) := by
  refine ⟨.read, [owner.name], .query hno haug (retargetIn_name ..), ?_⟩
  rw [directives_retargetIn]
  change (operationDirectives cat.settings Access.read.word [owner.name]).filter _ = _
  rw [filter_operationDirectives, operationDirectives_eq]
  rfl

lemma authorizes_nodeMutation (hno : owner ∈ cat.nodes)
    (haug : cat.augments .mutation owner.name) (action : NodeAction) (args : List ArgumentDef)
    (kind : TypeKind) : cat.Authorizes .mutation
      ((nodeMutation cat.settings action owner.name args).retargetIn cat.settings kind) := by
  have hw : action.word = action.access.word := by cases action <;> rfl
  refine ⟨action.access, [owner.name], .node action hno haug (retargetIn_name ..) ?_, ?_⟩
  · rw [FieldDef.marked, FieldDef.has, hasDirective, directives_retargetIn]
    change (operationDirectives cat.settings action.word [owner.name]).any _ = false
    rw [hw, operationDirectives_eq]
    split <;> rfl
  · rw [directives_retargetIn]
    change (operationDirectives cat.settings action.word [owner.name]).filter _ = _
    rw [hw, filter_operationDirectives, operationDirectives_eq]
    rfl

lemma authorizes_relationshipMutation {m : FieldDef} {rel : Relationship}
    (hno : owner ∈ cat.nodes) (hm : m ∈ cat.membersOf owner)
    (hrel : cat.Relates owner m rel) (hmut : rel.isMutable cat) (action : RelationshipAction)
    (kind : TypeKind) :
    cat.Authorizes .mutation ((rel.mutation cat.settings action).retargetIn cat.settings kind) := by
  have hw : action.scope = action.access.word := by cases action <;> rfl
  obtain ⟨ho, hf⟩ := hrel.names
  refine ⟨action.access, rel.ends, .relationship action hno hm hrel hmut ?_ ?_, ?_⟩
  · rw [retargetIn_name]
    change action.word ++ rel.owner ++ Text.capitalize rel.field = _
    rw [ho, hf]
  · rw [directives_retargetIn]
    exact mem_cons_self
  · rw [directives_retargetIn]
    change (buildMutationMeta _ _ _ :: operationDirectives cat.settings action.scope _).filter _ = _
    rw [filter_cons_of_neg (by simp [buildMutationMeta, Mark.word]), hw, filter_operationDirectives,
      operationDirectives_eq]
    simp only [map_cons, map_nil, keys_ofList_pair, Relationship.ends]

lemma authorizes_of_offers {op : OperationKind} {fd : FieldDef} (h : cat.Offers op fd)
    (kind : TypeKind) : cat.Authorizes op (fd.retargetIn cat.settings kind) := by
  rcases h.shape with ⟨rfl, owner, hno, haug, rfl⟩ | ⟨rfl, owner, hno, haug, action, rfl⟩ |
    ⟨rfl, owner, hno, m, hm, rel, hrel, hmut, action, -, rfl⟩
  · exact authorizes_nodeQueryField hno haug _ kind
  · exact authorizes_nodeMutation hno haug action _ kind
  · exact authorizes_relationshipMutation hno hm hrel hmut action kind

end Catalog

/-- In an augmented document every declared field keeps its directives, and every other field of an
operation type asks for the scopes of what it does exactly if scopes are in use. -/
theorem Document.authorized_of_augment {settings : Settings} {document augmented : Document}
    (h : (document.augment settings).outcome = .ok augmented) :
    ∃ catalog, (Catalog.ofDocument settings document).outcome = .ok catalog ∧
      catalog.HasMembers document augmented
        (fun _ declared field => field.name = declared.name ∧ field.directives = declared.directives) catalog.Authorizes := by
  obtain ⟨catalog, hcatalog, haugment⟩ := Run.bind_ok_iff.mp h
  obtain rfl := Catalog.ofDocument_settings hcatalog
  refine ⟨catalog, hcatalog, (Catalog.hasMembers_of_augment hcatalog haugment).imp ?_ ?_⟩
  · rintro kind declared field ⟨gained, hbecomes, rfl⟩
    rw [Catalog.retargetIn_name, directives_retargetIn]
    exact ⟨hbecomes.gains.name, hbecomes.gains.directives⟩
  · rintro operation field ⟨offered, kind, hoffers, rfl⟩
    exact Catalog.authorizes_of_offers hoffers kind

/-- Films and their sequels, with scopes in use. -/
theorem films_authorized : ∃ augmented,
    (filmDocument.augment { auth := .only [.hasScope] }).outcome = .ok augmented ∧
      ∃ catalog, (Catalog.ofDocument { auth := .only [.hasScope] } filmDocument).outcome =
        .ok catalog ∧ catalog.HasMembers filmDocument augmented
          (fun _ declared field => field.name = declared.name ∧
            field.directives = declared.directives) catalog.Authorizes := by
  obtain ⟨augmented, h⟩ := Run.exists_of_isOk
    (by decide +kernel : (filmDocument.augment { auth := .only [.hasScope] }).outcome.isOk)
  exact ⟨augmented, h, Document.authorized_of_augment h⟩

end GraphApi
