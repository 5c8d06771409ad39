import GraphApi.Schema.Basic

/-!
# Rules for definitions

What the definitions of a document have to keep to before a schema is made of them: names are
declared once, types and directives that are used are declared, extensions fit what they extend, and
directives stand where they may with the arguments that they take.
-/

namespace GraphApi

namespace Document

/-! ## Names that are declared once -/

def hasOneSchema (doc : Document) : Bool :=
  let operations := (schemaDefs doc).flatMap (·.operations) ++ extendedOperations doc
  (schemaDefs doc).length ≤ 1 && areDistinct (operations.map (·.1.word))

def definesOnce (doc : Document) : Bool :=
  areDistinct ((typeDefs doc).map (·.name)) && areDistinct ((directiveDefs doc).map (·.name))

def bodies (doc : Document) : List (Name × TypeBody) :=
  doc.filterMap fun
    | .type defn => some (defn.name, defn.body)
    | .typeExt extn => some (extn.name, extn.body)
    | _ => none

def hasDistinctMembers (doc : Document) : Bool :=
  let all := bodies doc
  all.all fun entry =>
    let own := (all.filter (·.1 == entry.1)).map (·.2)
    areDistinct (own.flatMap fun body => body.fields.map (·.name)) &&
      areDistinct (own.flatMap fun body => body.enumValues.map (·.name))

def hasDistinctArguments (doc : Document) : Bool :=
  (bodies doc).all (fun entry => entry.2.fields.all fun field =>
    areDistinct (field.arguments.map (·.name))) &&
    (directiveDefs doc).all fun directive => areDistinct (directive.arguments.map (·.name))

/-! ## Types -/

/-- All types that definitions refer to are declared or built in. Operations and fragments can only
refer to declared ones. -/
def knowsTypes (doc : Document) : Bool :=
  let declared := (typeDefs doc).map (·.name)
  doc.all fun defn => defn.references.all fun name =>
    declared.contains name || (defn.isSystem && Builtin.isName name)

def extendsDeclared (doc : Document) : Bool :=
  (typeExts doc).all fun extn =>
    match ((typeDefs doc).filter (·.name == extn.name)).getLast? with
    | some defn => defn.body.kind = extn.body.kind
    | none => false

end Document

/-! ## Directives -/

/-- The directive that counts under a name: the last definition. -/
def lastDirective? (known : List DirectiveDef) (name : Name) : Option DirectiveDef :=
  (known.filter (·.name == name)).getLast?

def ArgumentDef.isDemanded (arg : ArgumentDef) : Bool :=
  arg.type.required && arg.default.isNone

def Directive.fits (isNeeded : ArgumentDef → Bool) (directive : Directive) (defn : DirectiveDef) :
    Bool :=
  directive.arguments.all (fun entry => defn.arguments.any (·.name == entry.1)) &&
    defn.arguments.all fun arg =>
      !isNeeded arg || directive.arguments.any (·.1 == arg.name)

def DirectiveSite.isSound (isNeeded : ArgumentDef → Bool) (known : List DirectiveDef)
    (site : DirectiveSite) : Bool :=
  site.directives.all fun directive =>
    match lastDirective? known directive.name with
    | some defn => defn.places.contains site.place && directive.fits isNeeded defn
    | none => false

def isUniqueDirective (known : List DirectiveDef) (name : Name) : Bool :=
  match lastDirective? known name with
  | some defn => !defn.repeatable
  | none => false

def areUnrepeated (known : List DirectiveDef) (directives : List Directive) : Bool :=
  areDistinct ((directives.map (·.name)).filter (isUniqueDirective known))

def directivesOfOwner (sites : List DirectiveSite) (owner : DirectiveOwner) : List Directive :=
  (sites.filter (·.owner == owner)).flatMap (·.directives)

def DirectiveSite.isUnrepeated (known : List DirectiveDef) (sites : List DirectiveSite)
    (site : DirectiveSite) : Bool :=
  areUnrepeated known (if site.owner = .alone then site.directives
    else directivesOfOwner sites site.owner)

def Document.usesDirectives (isNeeded : ArgumentDef → Bool) (known : List DirectiveDef)
    (doc : Document) : Bool :=
  let sites := doc.sites
  sites.all fun site => site.isSound isNeeded known && site.isUnrepeated known sites

def Document.isSound (doc : Document) : Bool :=
  doc.hasOneSchema && doc.definesOnce && doc.hasDistinctMembers &&
    doc.hasDistinctArguments && doc.knowsTypes && doc.extendsDeclared &&
    Document.usesDirectives ArgumentDef.isDemanded (Builtin.directives ++ doc.directiveDefs) doc &&
    doc.all Definition.writesOnce

end GraphApi
