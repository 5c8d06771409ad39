import GraphApi.Api.Augment
import GraphApi.Schema.Valid

/-!
# Schemas of augmented documents

A schema for requests is made from the text of an augmented document. A schema that is built already
is augmented through its definitions, and the fields that have resolvers keep them.
-/

namespace GraphApi

def resolvedSchema (settings : Settings) (resolved : Option (List Name)) (typeDefs : String) :
    Run Notice Fault Schema := do
  let augmented ← augmentText settings typeDefs
  let doc ← Document.read augmented
  Run.ofExcept (Schema.make doc resolved)

def augmentedSchema (settings : Settings) (typeDefs : String) : Run Notice Fault Schema :=
  resolvedSchema settings none typeDefs

structure FieldPath where
  type : Name
  field : Name
deriving DecidableEq, Repr

def Schema.hasField (schema : Schema) (path : FieldPath) : Bool :=
  schema.kind? path.type = some .object && (schema.fieldsOf path.type).any (·.name == path.field)

def keptResolvers (source target : Schema) (bound : List FieldPath) : List FieldPath :=
  bound.filter fun path => source.hasField path && target.hasField path

/-- The resolvers of a schema on another one, for the fields that both have. -/
def copyResolvers {ρ : Type} (source target : Schema) (resolvers : FieldPath → Option ρ)
    (path : FieldPath) : Option ρ :=
  if source.hasField path && target.hasField path then resolvers path else none

def Schema.augment (settings : Settings) (schema : Schema) : Run Notice Fault Schema := do
  let doc ← Document.augment settings schema.extract
  Run.ofExcept (Schema.buildSound doc)

end GraphApi
