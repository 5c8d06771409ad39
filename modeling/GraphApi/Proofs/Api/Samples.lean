import GraphApi.Document.Basic

/-!
# Short forms of documents

Constructors for the documents on which the statements about augmentations are tried out.
-/

namespace GraphApi

def ArgumentDef.one (name type : Name) : ArgumentDef := { name, type := .plain type }

def FieldDef.one (name type : Name) (arguments : List ArgumentDef := [])
    (directives : List Directive := []) : FieldDef :=
  { name, type := .plain type, arguments, directives }

/-- A field that returns a list. -/
def FieldDef.many (name type : Name) (arguments : List ArgumentDef := [])
    (directives : List Directive := []) : FieldDef :=
  { name, type := Wrappers.plainList.wrap type, arguments, directives }

def FieldDef.idField : FieldDef := { name := "id", type := .named "ID" true }

/-- The mark of a field that leads to nodes over relationships with a name. -/
def Directive.relation (name : String) : Directive :=
  { name := "relation", arguments := [("name", .text name false)] }

namespace Definition

def object (name : Name) (fields : List FieldDef) (interfaces : List Name := []) : Definition :=
  .type { name, body := .object interfaces fields }

def interface (name : Name) (fields : List FieldDef) (interfaces : List Name := []) : Definition :=
  .type { name, body := .interface interfaces fields }

def extend (name : Name) (fields : List FieldDef) : Definition :=
  .typeExt { name, body := .object [] fields }

/-- A type of relationships from one type to another. -/
def relation (name source target : Name) (properties : List FieldDef := []) : Definition :=
  .type
    { name, directives := [{ name := "relation" }]
      body := .object [] (.one "from" source :: .one "to" target :: properties) }

end Definition

end GraphApi
