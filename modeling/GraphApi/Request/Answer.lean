import GraphApi.Request.Describe
import GraphApi.Request.Translate

/-!
# Answering requests

A request is answered field by field. Some mutations are handled: their translation is recorded, and
their value is null, as is the value of every other field. A field that must not be null therefore
ends the answer.
-/

namespace GraphApi

structure Call where
  field : Name
  outcome : Except Fault Nested.Translation

/-- What came of a request: the handled fields in order, and whether something went wrong outside of
them. -/
structure Answer where
  calls : List Call := []
  failed : Bool := false

def Answer.rejected : Answer := { failed := true }

def Answer.append (first second : Answer) : Answer where
  calls := first.calls ++ second.calls
  failed := first.failed || second.failed

variable (schema : Schema)

def Call.run (field : Name) (values : NameMap Value) : Run Notice Fault Call :=
  let translation := Nested.translate schema field values
  { events := translation.events, outcome := .ok { field, outcome := translation.outcome } }

def Schema.describedBy (field : Name) (values : NameMap Value) : List Described :=
  if field = schemaField.name then [.schema]
  else
    match field == typeField.name, values.get? "name" with
    | true, some (.text name) => if schema.typeNames.contains name then [.type (.named name false)]
        else []
    | _, _ => []

def isDescriptive (field : Name) : Bool :=
  field = typeNameField.name || field = schemaField.name || field = typeField.name

/-- How a request is answered: the schema, the fragments of the request, how deep its selections can
be, the values of its variables, and the mutations that are handled. -/
structure Answering where
  schema : Schema
  fragments : List FragmentDef
  levels : Nat
  assigned : NameMap Value
  handled : List Name

/-- Answers one field, which may be selected several times. The second result tells whether the
answer can go on. -/
def Answering.answerField (answering : Answering) (root : Name) (selected : List SelectedField) :
    Run Notice Fault (Answer × Bool) :=
  let schema := answering.schema
  match selected.head?.bind fun field => (schema.selected? root field.name).map (field, ·) with
  | none => return ({}, true)
  | some (field, member) =>
    match schema.argumentValues answering.assigned member.arguments field.arguments with
    | .error _ => return (.rejected, !member.type.required)
    | .ok values =>
      if isDescriptive field.name then
        let ending := Described.Ending.all
          (schema.describeWithin answering.fragments answering.assigned answering.levels
            (selected.flatMap SelectedField.selections))
          (schema.describedBy field.name values)
        return ({ failed := ending != .done }, ending.within member.type.required != .lost)
      else do
        let calls ←
          if root = Schema.resolvedType && answering.handled.contains field.name then
            pure [← Call.run schema field.name values]
          else pure []
        return ({ calls, failed := member.type.required }, !member.type.required)

def Answering.answerFields (answering : Answering) (root : Name) :
    List (List SelectedField) → Run Notice Fault Answer
  | [] => return {}
  | selected :: rest => do
    let (answer, goesOn) ← answering.answerField root selected
    if goesOn then return answer.append (← answering.answerFields root rest)
    else return answer

def Schema.knowsSubscriptions (doc : Document) : Bool :=
  doc.operations.all fun operation =>
    match operation.kind, schema.root? .subscription with
    | .subscription, some root =>
      (schema.collect (Document.fragments doc) [] (some root) operation.selections).isOk
    | _, _ => true

/-- Answers a request. One that is not valid, or whose operation is not clear, is rejected as a
whole. There is no answer at all to one with a subscription whose fields cannot be told. -/
def answerRequest (handled : List Name) (doc : Document) (given : NameMap Value) :
    Run Notice Fault Answer := do
  if !schema.knowsSubscriptions doc then Run.fail .request
  match doc.operation? with
  | none => return .rejected
  | some operation =>
    let prepared := do
      let assigned ← schema.prepare doc operation given
      return (assigned, ← schema.rootFields doc operation assigned)
    match prepared, schema.root? operation.kind with
    | .ok (assigned, fields), some root =>
      let answering : Answering :=
        { schema, assigned, handled, fragments := doc.fragments
          levels := (doc.flatMap Definition.selections).length + 1 }
      answering.answerFields root fields.values
    | _, _ => return .rejected

end GraphApi
