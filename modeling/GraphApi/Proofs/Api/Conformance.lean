import GraphApi.Proofs.Api.CoveredArguments
import GraphApi.Proofs.Api.FieldChange
import GraphApi.Schema.Valid

/-!
# Types that implement interfaces

An augmentation keeps that a type implements an interface, for members that are aligned: both stay,
both are changed alike, or the implementing one alone takes further arguments. Main statement:
`Document.implements_of_augment`.
-/

namespace GraphApi

open List Document Schema Wrappers Catalog TypeRef

variable {fd want : FieldDef}

/-! ## Implementing an interface -/

namespace Document

def bodiesOf (doc : Document) (name : Name) : List TypeBody :=
  ((typeDefs doc).filter (·.name == name)).map (·.body) ++
    ((typeExts doc).filter (·.name == name)).map (·.body)

def interfacesOf (doc : Document) (name : Name) : List Name :=
  (Document.bodiesOf doc name).flatMap (·.interfaces)

/-- The members of a type whose values are returned. -/
def outputFieldsOf (doc : Document) (name : Name) : List FieldDef :=
  (Document.bodiesOf doc name).flatMap (·.outputFields)

/-- A member that can stand where a member of an interface is expected. -/
structure ImplementsField (doc : Document) (field want : FieldDef) : Prop where
  name : field.name = want.name
  type : field.type.fits (assemble doc) want.type
  arguments : Covers field.arguments want.arguments

/-- A type that implements an interface in full. -/
structure Implements (doc : Document) (name iface : Name) : Prop where
  interfaces : ∀ general ∈ doc.interfacesOf iface, general ∈ doc.interfacesOf name
  fields : ∀ want ∈ doc.outputFieldsOf iface, ∃ field ∈ doc.outputFieldsOf name,
    doc.ImplementsField field want

end Document

instance (own want : List ArgumentDef) : Decidable (Covers own want) :=
  decidable_of_iff (_ ∧ _) ⟨fun h => ⟨h.1, h.2⟩, fun h => ⟨h.taken, h.optional⟩⟩

instance (doc : Document) (field want : FieldDef) :
    Decidable (Document.ImplementsField doc field want) :=
  decidable_of_iff (_ ∧ _ ∧ _) ⟨fun h => ⟨h.1, h.2.1, h.2.2⟩, fun h =>
    ⟨h.name, h.type, h.arguments⟩⟩

instance (doc : Document) (name iface : Name) : Decidable (Document.Implements doc name iface) :=
  decidable_of_iff (_ ∧ _) ⟨fun h => ⟨h.1, h.2⟩, fun h => ⟨h.interfaces, h.fields⟩⟩

/-! ## Aligned members -/

def FieldChange.isArguments : FieldChange → Bool
  | .arguments .. => true
  | .none | .output .. | .directions _ => false

namespace Catalog

/-- Two members of node types with one named type and the same marks, which share the types that a
relationship generates. -/
def ChangesTogether (cat : Catalog) (name iface : Name) (field want : FieldDef) : Prop :=
  PagesAlike field.arguments want.arguments ∧ field.type.base = want.type.base ∧
    field.marked .ignore = want.marked .ignore ∧ field.marked .cypher = want.marked .cypher ∧
      ∃ owner ∈ cat.nodes, owner.name = name ∧ ∃ other ∈ cat.nodes, other.name = iface ∧
        ((field.describe cat.types).kind = .relationship →
          cat.naming owner field.name = cat.naming other want.name)

/-- A member that alone takes arguments, where the interface declares no ordering and no filter. -/
def ChangesAlone (cat : Catalog) (name iface : Name) (field want : FieldDef) : Prop :=
  (cat.change name field).isArguments ∧ cat.change iface want = .none ∧
    "orderBy" ∉ want.arguments.map (·.name) ∧ "filter" ∉ want.arguments.map (·.name)

/-- A member of a type and a member of an interface that stay compatible. -/
structure Aligned (cat : Catalog) (name iface : Name) (field want : FieldDef) : Prop where
  distinct : (want.arguments.map (·.name)).Nodup
  /-- No further argument has to be given because its lists are flattened. -/
  optional : StaysOptional cat.settings field.arguments want.arguments
  /-- Temporal and spatial types are retargeted in both members or in neither. -/
  kinds : (field.type.base = want.type.base ∧ field.marked .ignore = want.marked .ignore) ∨
    (enabledKind? cat.settings field.type.base = none ∧
      enabledKind? cat.settings want.type.base = none)
  changes : (cat.change name field = .none ∧ cat.change iface want = .none) ∨
    cat.ChangesTogether name iface field want ∨ cat.ChangesAlone name iface field want

/-- A type and an interface whose members of one name are aligned. -/
structure Aligns (cat : Catalog) (doc : Document) (name iface : Name) : Prop where
  declared : ∃ defn ∈ typeDefs doc, defn.name = iface ∧ defn.body.kind = .interface
  inner : iface ∉ rootNames doc
  fields : ∀ field ∈ doc.outputFieldsOf name, ∀ want ∈ doc.outputFieldsOf iface,
    field.name = want.name → cat.Aligned name iface field want

instance (cat : Catalog) (name iface : Name) (field want : FieldDef) :
    Decidable (cat.Aligned name iface field want) :=
  have : Decidable (PagesAlike field.arguments want.arguments) :=
    inferInstanceAs (Decidable (∀ _ ∈ _, _ → _))
  have : Decidable (StaysOptional cat.settings field.arguments want.arguments) :=
    inferInstanceAs (Decidable (∀ _ ∈ _, _ ∨ (_ = _ → _ = _)))
  have : Decidable (cat.ChangesTogether name iface field want) :=
    inferInstanceAs (Decidable (_ ∧ _))
  have : Decidable (cat.ChangesAlone name iface field want) := inferInstanceAs (Decidable (_ ∧ _))
  decidable_of_iff (_ ∧ _ ∧ _ ∧ _) ⟨fun h => ⟨h.1, h.2.1, h.2.2.1, h.2.2.2⟩,
    fun h => ⟨h.distinct, h.optional, h.kinds, h.changes⟩⟩

instance (cat : Catalog) (doc : Document) (name iface : Name) :
    Decidable (cat.Aligns doc name iface) :=
  decidable_of_iff (_ ∧ _ ∧ _) ⟨fun h => ⟨h.1, h.2.1, h.2.2⟩, fun h =>
    ⟨h.declared, h.inner, h.fields⟩⟩

end Catalog

/-! ## Changed members -/

@[simp] lemma FieldChange.apply_name (fd : FieldDef) (change : FieldChange) :
    (change.apply fd).name = fd.name := by
  cases change <;> rfl

@[simp] lemma FieldChange.apply_marked (fd : FieldDef) (change : FieldChange) (mark : Mark) :
    (change.apply fd).marked mark = fd.marked mark := by
  cases change <;> rfl

lemma FieldChange.staysOptional_apply {cfg : Settings}
    (h : StaysOptional cfg fd.arguments want.arguments) (change : FieldChange) :
    StaysOptional cfg (change.apply fd).arguments (change.apply want).arguments := by
  cases change with
  | none => exact h
  | arguments ordering filter => exact h.queryArguments (fun _ hn => mem_names_queryArguments hn) _ _ _
  | output type ordering filter =>
    simp only [apply]
    exact h.queryArguments (fun _ hn => mem_names_queryArguments hn) _ _ _
  | directions type => exact fun arg harg => by cases harg

namespace Document.ImplementsField

variable {doc aug : Document} {fd want : FieldDef} (h : doc.ImplementsField fd want)
include h

lemma apply_both (hds : (want.arguments.map (·.name)).Nodup)
    (hpa : PagesAlike fd.arguments want.arguments) (change : FieldChange) :
    ImplementsField doc (change.apply fd) (change.apply want) := by
  have hl := (wrappers_of_fits h.type).1
  have har (ordering filter : Option Name) :
      Covers (queryArguments fd.arguments fd.type.wrappers.list ordering filter)
        (queryArguments want.arguments want.type.wrappers.list ordering filter) := by
    rw [hl]
    exact h.arguments.queryArguments hds hpa ..
  refine ⟨by simpa using h.name, ?_, ?_⟩
  · cases change with
    | none => exact h.type
    | arguments ordering filter => exact h.type
    | output type ordering filter => exact wrap_fits h.type _ type
    | directions type => exact fits_refl ..
  · cases change with
    | none => exact h.arguments
    | arguments ordering filter => exact har ordering filter
    | output type ordering filter => exact har (some ordering) (some filter)
    | directions type => exact .refl []

lemma apply_left {change : FieldChange} (hch : change.isArguments)
    (hord : "orderBy" ∉ want.arguments.map (·.name))
    (hfi : "filter" ∉ want.arguments.map (·.name)) :
    ImplementsField doc (change.apply fd) want := by
  cases change with
  | arguments ordering filter => exact ⟨h.name, h.type, h.arguments.queryArguments_left hord hfi ..⟩
  | none | output | directions => cases hch

lemma retarget {cfg : Settings} (hm : ∀ name general, (assemble doc).isMember name general →
      (assemble aug).isMember name general) (hop : StaysOptional cfg fd.arguments want.arguments)
    (hki : (fd.type.base = want.type.base ∧ fd.marked .ignore = want.marked .ignore) ∨
      (enabledKind? cfg fd.type.base = none ∧ enabledKind? cfg want.type.base = none)) :
    ImplementsField aug (fd.retarget cfg) (want.retarget cfg) := by
  refine ⟨h.name, ?_, h.arguments.retarget hop⟩
  have hft := fits_mono hm h.type
  unfold FieldDef.retarget
  rcases hki with ⟨hb, hig⟩ | ⟨hf, hexp⟩
  · rw [hig]
    split
    · exact hft
    · exact retargetRef_fits hm cfg storedTypeName h.type hb
  · simpa only [retargetRef, hf, hexp, ite_self] using hft

/-- An aligned member still implements after both have changed. -/
lemma augment {cat : Catalog} (hs : cat.IsSorted)
      (hm : ∀ name general, (assemble doc).isMember name general →
      (assemble aug).isMember name general) {name iface : Name}
      (hal : cat.Aligned name iface fd want) :
    ImplementsField aug (((cat.change name fd).apply fd).retarget cat.settings)
      (((cat.change iface want).apply want).retarget cat.settings) := by
  rcases hal.changes with ⟨hf, hexp⟩ | hto | ⟨har, hexp, hord, hfi⟩
  · rw [hf, hexp]
    exact h.retarget hm hal.optional hal.kinds
  · obtain ⟨hpa, hb, hig, hcm, owner, how, rfl, other, ho, rfl, hna⟩ := hto
    rw [change_of_mem_nodes hs how, change_of_mem_nodes hs ho,
      nodeChange_congr hs how ho h.name hb hig hcm hna]
    refine (h.apply_both hal.distinct hpa _).retarget hm
      (FieldChange.staysOptional_apply hal.optional _) (.inl ⟨?_, by simpa using hig⟩)
    cases cat.nodeChange other want <;> simp [FieldChange.apply, hb]
  · have hleft := h.apply_left har hord hfi
    rw [hexp]
    cases hch : cat.change name fd with
    | arguments ordering filter =>
      rw [hch] at hleft
      exact hleft.retarget hm (hal.optional.queryArguments (Subset.refl _) _ _ _) hal.kinds
    | none | output | directions => simp [hch, FieldChange.isArguments] at har

end Document.ImplementsField

/-! ## Augmented documents -/

namespace Document.GrowsTo

variable {cfg : Settings} {change : Name → FieldDef → FieldDef} {doc aug : Document}
  (h : Document.GrowsTo cfg change doc aug) {name : Name} {declared : TypeDef} {fd : FieldDef}
include h

lemma exists_grown {body : TypeBody} (hb : body ∈ doc.bodiesOf name) :
    ∃ grown ∈ aug.bodiesOf name, ∃ added, body.GrowsTo cfg (change name) added grown := by
  rcases mem_append.mp hb with hb | hb
  · obtain ⟨declared, hd, rfl⟩ := mem_map.mp hb
    obtain ⟨hm, hn⟩ := mem_filter.mp hd
    obtain rfl : declared.name = name := by simpa using hn
    obtain ⟨defn, hdef, heq, -, added, hgr, -⟩ := h.types declared hm
    exact ⟨_, mem_append_left _ (mem_map_of_mem (mem_filter.mpr ⟨hdef, by simpa using heq⟩)), added,
      hgr⟩
  · obtain ⟨declared, hd, rfl⟩ := mem_map.mp hb
    obtain ⟨hm, hn⟩ := mem_filter.mp hd
    obtain rfl : declared.name = name := by simpa using hn
    obtain ⟨extn, hx, heq, hgr⟩ := h.extensions declared hm
    exact ⟨_, mem_append_right _ (mem_map_of_mem (mem_filter.mpr ⟨hx, by simpa using heq⟩)), [],
      hgr⟩

lemma exists_declared (hd : declared ∈ doc.typeDefs) {grown : TypeBody}
    (hgw : grown ∈ aug.bodiesOf declared.name) : ∃ body ∈ doc.bodiesOf declared.name,
      ∃ added, body.GrowsTo cfg (change declared.name) added grown ∧
        (declared.body.kind = .interface → declared.name ∉ rootNames doc → added = []) := by
  rcases mem_append.mp hgw with hgw | hgw
  · obtain ⟨defn, hdef, rfl⟩ := mem_map.mp hgw
    obtain ⟨hdef, hn⟩ := mem_filter.mp hdef
    obtain ⟨found, -, -, hun, hgr⟩ := h.types declared hd
    obtain rfl := hun defn hdef (by simpa using hn)
    exact ⟨_, mem_append_left _ (mem_map_of_mem (mem_filter.mpr ⟨hd, by simp⟩)), hgr⟩
  · obtain ⟨extn, hx, rfl⟩ := mem_map.mp hgw
    obtain ⟨hx, hn⟩ := mem_filter.mp hx
    obtain ⟨source, hsrc, heq, hgr⟩ := h.extended extn hx
    have hsn : source.name = declared.name := by simpa [heq] using hn
    rw [hsn] at hgr
    exact ⟨_, mem_append_right _ (mem_map_of_mem (mem_filter.mpr ⟨hsrc, by simpa using hsn⟩)), [],
      hgr, fun _ _ => rfl⟩

lemma mem_interfacesOf (hd : declared ∈ doc.typeDefs) {iface : Name} :
    iface ∈ aug.interfacesOf declared.name ↔ iface ∈ doc.interfacesOf declared.name := by
  constructor
  · intro hif
    obtain ⟨grown, hgw, hif⟩ := mem_flatMap.mp hif
    obtain ⟨body, hb, added, hgr, -⟩ := h.exists_declared hd hgw
    exact mem_flatMap.mpr ⟨body, hb, hgr.interfaces ▸ hif⟩
  · intro hif
    obtain ⟨body, hb, hif⟩ := mem_flatMap.mp hif
    obtain ⟨grown, hgw, added, hgr⟩ := h.exists_grown hb
    exact mem_flatMap.mpr ⟨grown, hgw, hgr.interfaces ▸ hif⟩

lemma mem_outputFieldsOf (hf : fd ∈ doc.outputFieldsOf name) :
    (change name fd).retarget cfg ∈ aug.outputFieldsOf name := by
  obtain ⟨body, hb, hf⟩ := mem_flatMap.mp hf
  obtain ⟨grown, hgw, added, hgr⟩ := h.exists_grown hb
  refine mem_flatMap.mpr ⟨grown, hgw, ?_⟩
  rw [hgr.outputFields]
  exact mem_append_left _ (mem_map_of_mem hf)

lemma exists_of_mem_outputFieldsOf {iface : TypeDef} (hif : iface ∈ doc.typeDefs)
    (hk : iface.body.kind = .interface) (hin : iface.name ∉ rootNames doc)
    (hf : fd ∈ aug.outputFieldsOf iface.name) :
    ∃ want ∈ doc.outputFieldsOf iface.name, fd = (change iface.name want).retarget cfg := by
  obtain ⟨grown, hgw, hf⟩ := mem_flatMap.mp hf
  obtain ⟨body, hb, added, hgr, hno⟩ := h.exists_declared hif hgw
  rw [hgr.outputFields, hno hk hin, append_nil] at hf
  obtain ⟨want, hexp, rfl⟩ := mem_map.mp hf
  exact ⟨want, mem_flatMap.mpr ⟨body, hb, hexp⟩, rfl⟩

end Document.GrowsTo

/-- An augmentation keeps the interfaces of declared types, and implementations of which the members
are aligned. -/
theorem Document.implements_of_augment {settings : Settings} {document augmented : Document} {catalog : Catalog}
    (htypes : ((Document.typeDefs document).map (·.name)).Nodup) (hroots : (Catalog.rootNames document).Nodup)
    (hnames : ∀ name ∈ Catalog.rootNames document, Text.startsWith "_" name = false)
    (hcatalog : (Catalog.ofDocument settings document).outcome = .ok catalog)
    (h : (Document.augment settings document).outcome = .ok augmented) {declared : TypeDef}
    (hdeclared : declared ∈ Document.typeDefs document) (interface : Name) :
    (interface ∈ Document.interfacesOf augmented declared.name ↔ interface ∈ Document.interfacesOf document declared.name) ∧
      (Document.Implements document declared.name interface → catalog.Aligns document declared.name interface →
        Document.Implements augmented declared.name interface) := by
  obtain ⟨found, hfound, haugment⟩ := Run.bind_ok_iff.mp h
  obtain rfl : catalog = found := Except.ok.inj (hcatalog.symm.trans hfound)
  have hsorted := isSorted_of_ok hcatalog
  have hgrows := growsTo_augment hcatalog htypes hroots hnames haugment
  refine ⟨hgrows.mem_interfacesOf hdeclared, fun himplements haligns =>
    ⟨fun general hgeneral => ?_, fun expected hexpected => ?_⟩⟩
  · obtain ⟨definition, hdefinition, rfl, -⟩ := haligns.declared
    rw [hgrows.mem_interfacesOf hdefinition] at hgeneral
    rw [hgrows.mem_interfacesOf hdeclared]
    exact himplements.interfaces general hgeneral
  · obtain ⟨definition, hdefinition, rfl, hkind⟩ := haligns.declared
    obtain ⟨before, hbefore, rfl⟩ :=
      hgrows.exists_of_mem_outputFieldsOf hdefinition hkind haligns.inner hexpected
    obtain ⟨field, hfield, hsame⟩ := himplements.fields before hbefore
    refine ⟨_, hgrows.mem_outputFieldsOf hfield, ?_⟩
    exact hsame.augment hsorted (fun _ _ => hgrows.isMember)
      (haligns.fields field hfield before hbefore hsame.name)

/-- An interface with a temporal member, a list of nodes and a relationship, and a type that
implements it with a required list and one more argument. -/
def museumDocument : Document :=
  [.interface "Exhibit"
    [.idField, .one "made" "Date", .many "rooms" "Room" [.one "wing" "String"],
     .many "loans" "Loan"],
   .object "Painting"
    [.idField, { name := "made", type := .named "Date" true },
     { name := "rooms", type := .list (.named "Room" true) true
       arguments := [.one "wing" "String", .one "floor" "Int"] },
     { name := "loans", type := listOfRequired.wrap "Loan" }] ["Exhibit"],
   .object "Room" [.idField], .relation "Loan" "Painting" "Room"]

/-- A painting takes further arguments, and is still an exhibit. -/
theorem paintings_implement_exhibit : ∃ augmented, (Document.augment {} museumDocument).outcome = .ok augmented ∧
    "Exhibit" ∈ Document.interfacesOf augmented "Painting" ∧ Document.Implements augmented "Painting" "Exhibit" := by
  obtain ⟨augmented, h⟩ := Run.exists_of_isOk
    (by decide +kernel : (augment {} museumDocument).outcome.isOk)
  obtain ⟨catalog, hcatalog, haligns⟩ : ∃ catalog,
      (ofDocument {} museumDocument).outcome = .ok catalog ∧
      catalog.Aligns museumDocument "Painting" "Exhibit" := Run.exists_of_any (by decide +kernel)
  obtain ⟨declared, hdeclared, hname⟩ : ∃ declared ∈ museumDocument.typeDefs,
    declared.name = "Painting" :=
    ⟨_, mem_cons_of_mem _ mem_cons_self, rfl⟩
  have hkept := implements_of_augment (by decide +kernel) (by decide +kernel) (by decide +kernel)
    hcatalog h hdeclared
    "Exhibit"
  rw [hname] at hkept
  exact ⟨augmented, h, hkept.1.mpr (by decide +kernel), hkept.2 (by decide +kernel) haligns⟩

/-- An interface that returns nodes of an interface, and a type that returns nodes of a type that
implements it. -/
def covariantDocument : Document :=
  [.interface "N" [.idField], .object "U" [.idField] ["N"], .interface "A" [.many "r" "N"],
   .object "B" [.many "r" "U"] ["A"]]

-- without alignment implementations are lost: each member is ordered and filtered by its own type
example : Document.Implements covariantDocument "B" "A" ∧
    ∃ cat, (ofDocument {} covariantDocument).outcome = .ok cat ∧
      ∃ interface ∈ cat.types.values, interface.name = "A" ∧ ∃ type ∈ cat.types.values,
      type.name = "B" ∧
        ∃ expected ∈ (augmentedType cat interface).fields,
        ∀ field ∈ (augmentedType cat type).fields, ¬ Covers field.arguments expected.arguments :=
  ⟨by decide +kernel, Run.exists_of_any (by decide +kernel)⟩

end GraphApi
