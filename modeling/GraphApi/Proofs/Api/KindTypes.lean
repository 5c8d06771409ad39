import GraphApi.Proofs.Api.References

/-!
# Temporal and spatial types in an augmented document

Each place leads to the generated type of its kind, all other references stay, retargeting once more
changes nothing, and what is referred to is defined. Main statement:
`Document.retargets_of_augment`.
-/

namespace GraphApi

open List Document Parts

variable {kind : Name}

/-! ## Names of temporal and spatial types -/

def kindTypes (kind : Name) : List Name :=
  [storedTypeName kind, storedInputName kind] ++ if kind = SpatialKind.point.word
    then [pointDistanceFilter] else []

def disabledKinds (cfg : Settings) : List Name :=
  kindNames.filter fun kind => (enabledKind? cfg kind).isNone

lemma mem_storedTypes_of_mem_kindTypes {cfg : Settings} {name : Name} (hk : kind ∈ kindNames)
    (hen : kind ∉ disabledKinds cfg) (h : name ∈ kindTypes kind) :
    ∃ defn ∈ storedTypes cfg, defn.name = name := by
  obtain ⟨found, hfo⟩ := Option.isSome_iff_exists.mp (Option.isSome_iff_ne_none.mpr
    (fun hno => hen (mem_filter.mpr ⟨hk, by simp [hno]⟩)) : (enabledKind? cfg kind).isSome)
  have hb : ∀ kind ∈ kindNames, baseKind kind = kind := by decide
  obtain ⟨heq, hki⟩ := enabledKind?_eq_some.mp hfo
  rw [hb kind hk] at heq
  subst heq
  obtain ⟨ht, hin⟩ := Catalog.mem_storedTypes_of_enabledKind? hfo
  simp only [kindTypes, mem_append, mem_cons, not_mem_nil, or_false] at h
  rcases h with (rfl | rfl) | h
  · exact ht
  · exact hin
  · split at h
    · rename_i hpo
      -- distances are compared if points are enabled
      rcases hki with ⟨temporal, hw, -⟩ | ⟨spatial, -, hsp⟩
      · exact absurd (hw.trans hpo) (by cases temporal <;> decide)
      · cases spatial
        refine ⟨pointDistanceType, mem_append_right _ (mem_flatMap.mpr ⟨.point, ?_, ?_⟩),
          (mem_singleton.mp h).symm⟩
        · exact mem_filter.mpr ⟨by decide, hsp⟩
        · exact mem_append_right _ mem_cons_self
    · simp at h

lemma Parts.mem_names_scalars (cfg : Settings) {parts : Parts}
    (hos : ∀ other ∈ parts.others, other.isOther) (hk : kind ∈ kindNames)
    (href : kind ∈ references (parts.document cfg))
    (hfr : kind ∉ (parts.types ++ parts.roots ++ parts.generated).map (·.name)) :
    kind ∈ (parts.scalars cfg).map (·.name) := by
  refine mem_map.mpr ⟨scalarType kind, mem_map.mpr ⟨kind, mem_filter.mpr ⟨hk, ?_⟩, rfl⟩, rfl⟩
  rw [Bool.and_eq_true, Bool.not_eq_true', contains_iff_mem, contains_eq_mem,
    decide_eq_false_iff_not]
  refine ⟨?_, fun hd => hfr ?_⟩
  swap
  · -- retargeting leaves types what they are, so a name that is declared is that of one of the types
    obtain ⟨defn, hdef, hn⟩ := mem_filterMap.mp hd
    rw [← map_append] at hdef
    obtain ⟨pre, hb, rfl⟩ := mem_map.mp hdef
    cases pre with
    | type type =>
      obtain rfl : type.name = kind := Option.some.inj hn
      refine mem_map_of_mem ?_
      have ho : Definition.type type ∉ parts.others :=
        fun hm => by simpa [Definition.isOther] using hos _ hm
      simpa [body, tail, ho, or_assoc] using hb
    | operation | fragment | schema | directive | schemaExt | typeExt => cases hn
  -- the scalars themselves refer to nothing
  simp only [references, document, flatMap_append, mem_append] at href ⊢
  rcases href with (hbd | hsc) | hta
  · exact .inl hbd
  · obtain ⟨defn, hdef, hn⟩ := mem_flatMap.mp hsc
    obtain ⟨scalar, hsc, rfl⟩ := mem_map.mp hdef
    obtain ⟨word, -, rfl⟩ := mem_map.mp hsc
    cases hn
  · exact .inr hta

namespace Catalog

variable {name kind : Name} {cat : Catalog}

/-- A name that is taken from an interface ends like that of a filter or an ordering. -/
lemma getLast?_of_borrows (h : cat.Borrows name) :
    name.toList.getLast? = some 'r' ∨ name.toList.getLast? = some 'g' := by
  have hfi (type : Name) : (filterName type).toList.getLast? = some 'r' := by
    rw [filterName, String.toList_append, getLast?_append]
    rfl
  obtain ⟨owner, -, fd, -, rel, iface, -, -, -, rfl | rfl | ⟨-, rfl⟩⟩ := h
  · refine .inl ?_
    unfold Relationship.filterName
    split
    · exact hfi _
    · exact hfi _
  · rw [Relationship.orderingName, orderingName, String.toList_append, getLast?_append]
    exact .inr rfl
  · exact .inl (hfi _)

lemma eq_of_borrows (hk : kind ∈ kindNames) (hn : name ∈ kindTypes kind)
    (h : cat.Borrows name) : name = pointDistanceFilter := by
  have hen : ∀ kind ∈ kindNames, ∀ name ∈ kindTypes kind, name ≠ pointDistanceFilter →
      name.toList.getLast? ≠ some 'r' ∧ name.toList.getLast? ≠ some 'g' := by decide
  by_contra hne
  obtain ⟨hr, hg⟩ := hen kind hk name hn hne
  exact (getLast?_of_borrows h).elim hr hg

lemma names_operationTypes (cat : Catalog) :
    cat.operationTypes.map (·.2.name) = (keptRoots cat.progress.roots).map (·.2.name) := by
  rw [operationTypes, map_map]
  rfl

/-- Where the names of temporal and spatial types lead in an augmented document. -/
structure Retargets (cat : Catalog) (doc aug : Document) : Prop where
  /-- Each place leads to the generated type of its kind, if that is enabled. -/
  exact : ∀ defn ∈ aug, defn.IsRetargeted cat.settings
  /-- Each definition refers to what it referred to before, apart from references to enabled kinds. -/
  stays : ∃ directives, (directiveDefinitions cat.types cat.directives cat.settings).outcome =
    .ok directives ∧ aug = (cat.parts directives.values).document cat.settings ∧
    ∀ defn ∈ (cat.parts directives.values).body ++ (cat.parts directives.values).tail,
      defn.retarget cat.settings ∈ aug ∧
        Forall₂ (LeadsOn cat.settings) defn.references (defn.retarget cat.settings).references
  again : aug.map (Definition.retarget cat.settings) = aug
  /-- A kind that is referred to by its own name is defined, by a scalar unless a type has that name. -/
  kinds : ∀ kind ∈ kindNames, kind ∈ references aug →
    (kind ∈ (typeDefs doc).map (·.name) ∨ kind ∈ cat.operationTypes.map (·.2.name) ∨
      scalarType kind ∈ typeDefs aug) ∧ kind ∈ (typeDefs aug).map (·.name)
  /-- So is a generated type of a kind that is referred to, if the document refers to none of a kind that is switched off. Only
  the comparison of distances can be the name that a relationship field takes from an interface, and then nothing may define it. -/
  types : (∀ kind ∈ disabledKinds cat.settings, ∀ name ∈ kindTypes kind, name ∉ references doc) →
    ∀ kind ∈ kindNames, ∀ name ∈ kindTypes kind, name ∈ references aug →
      name ∈ (typeDefs aug).map (·.name) ∨
        (kind ∈ disabledKinds cat.settings ∧ name = pointDistanceFilter ∧ cat.Borrows name)
  /-- What is defined is defined once, unless operation types have the name of each other or of a generated type. -/
  once : ∀ name ∈ (typeDefs aug).map (·.name),
    ((typeDefs aug).map (·.name)).count name = 1 ↔
      (cat.operationTypes.map (·.2.name)).count name + (if name ∈ cat.generated.keys
        then 1 else 0) ≤ 1

section Retargets

variable {cfg : Settings} {doc aug : Document} {cat : Catalog}
  (hcat : (ofDocument cfg doc).outcome = .ok cat) (h : cat.augment.outcome = .ok aug)
include hcat h

lemma isRetargeted_of_augment : ∀ defn ∈ aug, defn.IsRetargeted cat.settings := by
  obtain ⟨dirs, -, rfl⟩ := augment_eq (isSorted_of_ok hcat) h
  intro defn hd
  simp only [document, mem_append, mem_map] at hd
  rcases hd with (⟨pre, -, rfl⟩ | ⟨scalar, hsc, rfl⟩) | ⟨pre, -, rfl⟩
  · exact pre.isRetargeted_retarget cat.settings
  · obtain ⟨kind, -, rfl⟩ := mem_map.mp hsc
    exact fun fd hf => by cases hf
  · exact pre.isRetargeted_retarget cat.settings

lemma count_names_augment (hn : name ∈ aug.typeDefs.map (·.name)) :
    (aug.typeDefs.map (·.name)).count name = 1 ↔
    (cat.operationTypes.map (·.2.name)).count name + (if name ∈ cat.generated.keys then 1
      else 0) ≤ 1 := by
  have hs := isSorted_of_ok hcat
  obtain ⟨dirs, hns, -⟩ := exists_names_augment hcat h
  rw [← names_operationTypes] at hns
  have hpo := count_pos_iff.mpr hn
  rw [hns] at hpo ⊢
  simp only [count_append] at hpo ⊢
  have hsl : (((cat.parts dirs).scalars cat.settings).map (·.name)).Nodup :=
    (sublist_names_scalars _ _).nodup (by decide)
  -- operation types are taken out of the declared ones, and scalars are added for names that are not taken
  have hrs : name ∈ cat.types.keys → (cat.operationTypes.map (·.2.name)).count name = 0 := by
    intro hd
    rw [count_eq_zero, names_operationTypes]
    intro hn
    obtain ⟨root, hr, rfl⟩ := mem_map.mp hn
    obtain ⟨pre, hb, added, hcom⟩ := exists_completes (mem_of_mem_filter hr)
    rw [hcom.name] at hd
    exact hs.rootsApart pre hb hd
  have hta (hta : name ∈ cat.types.keys ++ cat.operationTypes.map (·.2.name) ++
      (keptTypes cat.types cat.generated).map (·.name)) :
      name ∉ ((cat.parts dirs).scalars cat.settings).map (·.name) := by
    rw [names_operationTypes, ← names_parts hcat dirs] at hta
    exact name_not_mem_scalars _ hta
  simp only [hs.nodupTypes.count, (nodup_names_keptTypes hs).count, hsl.count,
    mem_names_keptTypes hs] at hpo ⊢
  by_cases hd : name ∈ cat.types.keys
  · have hnot := hta (mem_append_left _ (mem_append_left _ hd))
    by_cases hgen : name ∈ cat.generated.keys <;> simp [hd, hrs hd, hnot, hgen]
  · by_cases hsc : name ∈ ((cat.parts dirs).scalars cat.settings).map (·.name)
    · -- then nothing else has the name
      have hno : name ∉ cat.operationTypes.map (·.2.name) ∧ name ∉ cat.generated.keys := by
        constructor
        · exact fun hr => hta (mem_append_left _ (mem_append_right _ hr)) hsc
        · exact fun hgen => hta
            (mem_append_right _ ((mem_names_keptTypes hs).mpr ⟨hgen, hd⟩)) hsc
      simp [hd, hsc, hno.2, count_eq_zero.mpr hno.1]
    · simp only [hd, hsc, if_false, not_false_eq_true, and_true] at hpo ⊢
      omega

lemma defined_of_kind (hk : kind ∈ kindNames) (href : kind ∈ aug.references) :
    (kind ∈ doc.typeDefs.map (·.name) ∨ kind ∈ cat.operationTypes.map (·.2.name) ∨
      scalarType kind ∈ aug.typeDefs) ∧ kind ∈ aug.typeDefs.map (·.name) := by
  have hs := isSorted_of_ok hcat
  obtain ⟨dirs, hns, rfl⟩ := exists_names_augment hcat h
  rw [← names_operationTypes] at hns
  by_cases hsc : kind ∈ ((cat.parts dirs).scalars cat.settings).map (·.name)
  · obtain ⟨scalar, hm, hn⟩ := mem_map.mp hsc
    obtain ⟨word, -, rfl⟩ := mem_map.mp hm
    obtain rfl : word = kind := hn
    have hde : scalarType word ∈ typeDefs ((cat.parts dirs).document cat.settings) := by
      rw [typeDefs_document _ hs.others]
      exact mem_append_right _ hm
    exact ⟨.inr (.inr hde), mem_map_of_mem hde⟩
  -- a kind that is referred to lacks a scalar only if a type has its name
  have hta : kind ∈ cat.types.keys ++ cat.operationTypes.map (·.2.name) ++
      (keptTypes cat.types cat.generated).map (·.name) := by
    by_contra hfr
    rw [names_operationTypes, ← names_parts hcat dirs] at hfr
    exact hsc (mem_names_scalars _ hs.others hk href hfr)
  refine ⟨?_, ?_⟩
  · simp only [mem_append, or_assoc] at hta
    rcases hta with hd | hop | hgen
    · obtain ⟨e, he, rfl⟩ := mem_map.mp hd
      refine .inl (mem_map.mpr ⟨e.2, ?_, hs.nameOfType e he⟩)
      exact mem_typeDefs_of_mem_values hcat (mem_map_of_mem he)
    · exact .inr (.inl hop)
    · have hp : ∀ kind ∈ kindNames, Text.startsWith "_" kind = false := by decide
      have hus := startsWith_of_mem_generated hs ((mem_names_keptTypes hs).mp hgen).1
      rw [hp kind hk] at hus
      cases hus
  · rw [hns]
    exact mem_append_left _ hta

lemma defined_of_kindType (hp : ∀ kind ∈ disabledKinds cat.settings, ∀ name ∈ kindTypes kind,
    name ∉ doc.references)
    (hk : kind ∈ kindNames) (hn : name ∈ kindTypes kind) (href : name ∈ aug.references) :
    name ∈ aug.typeDefs.map (·.name) ∨
      (kind ∈ disabledKinds cat.settings ∧ name = pointDistanceFilter ∧ cat.Borrows name) := by
  have hs := isSorted_of_ok hcat
  by_cases hdi : kind ∈ disabledKinds cat.settings
  · cases sources_of_mem_references hcat h href with
    | referenced hdoc => exact absurd hdoc (hp kind hdi name hn)
    | known hkn =>
      rcases hkn with hd | hgen
      · exact .inl (defined_of_declared hs h hd)
      · exact .inl (defined_of_generated hs h hgen)
    | operation hop =>
      obtain ⟨root, hr, rfl⟩ := mem_map.mp hop
      exact .inl (mem_map.mpr ⟨_, mem_typeDefs_of_mem_keptRoots hs h hr, rfl⟩)
    | builtin hbi =>
      have hap : ∀ kind ∈ kindNames, ∀ name ∈ kindTypes kind, name ∉ Builtin.scalarNames := by
        decide
      exact absurd hbi (hap kind hk name hn)
    | borrowed hbo => exact .inr ⟨hdi, eq_of_borrows hk hn hbo, hbo⟩
  · exact .inl (defined_of_generated hs h
      (mem_keys_generated_of_stored (mem_storedTypes_of_mem_kindTypes hk hdi hn)))

end Retargets

end Catalog

/-- In an augmented document the names of temporal and spatial types lead to the generated types of
the enabled kinds, and to defined ones throughout. -/
theorem Document.retargets_of_augment {settings : Settings} {document augmented : Document}
    (h : (document.augment settings).outcome = .ok augmented) :
    ∃ catalog, (Catalog.ofDocument settings document).outcome = .ok catalog ∧ catalog.settings = settings ∧
      catalog.Retargets document augmented := by
  obtain ⟨catalog, hcatalog, haugment⟩ := Run.bind_ok_iff.mp h
  have hretargeted := Catalog.isRetargeted_of_augment hcatalog haugment
  refine ⟨catalog, hcatalog, Catalog.ofDocument_settings hcatalog, hretargeted, ?_, ?_, ?_, ?_, ?_⟩
  · obtain ⟨directives, hdirectives, rfl⟩ :=
    Catalog.augment_eq (Catalog.isSorted_of_ok hcatalog) haugment
    refine ⟨directives, hdirectives, rfl, fun definition hdefinition =>
      ⟨?_, definition.forall₂_leadsOn catalog.settings⟩⟩
    rcases mem_append.mp hdefinition with hbody | htail
    · exact mem_append_left _ (mem_append_left _ (mem_map_of_mem hbody))
    · exact mem_append_right _ (mem_map_of_mem htail)
  · exact (map_congr_left fun definition hdefinition =>
      Definition.retarget_of_isRetargeted (hretargeted definition hdefinition)).trans (map_id _)
  · exact fun kind hkind => Catalog.defined_of_kind hcatalog haugment hkind
  · exact fun hplain kind hkind name hname =>
      Catalog.defined_of_kindType hcatalog haugment hplain hkind hname
  · exact fun name hname => Catalog.count_names_augment hcatalog haugment hname

/-- A document with temporal and spatial types in all places: a field that is left out of the API,
an argument that names a generated type, an input type, its extension and a directive. -/
def stationDocument : Document :=
  [.directive { name := "since", arguments := [.one "date" "Date"], places := [.object] },
   .object "Station"
    [.idField, .one "opened" "Date", .one "place" "Point",
     .one "closed" "DateTime" [] [{ name := "neo4j_ignore" }],
     .many "trains" "String" [.one "after" "_Neo4jTime"]],
   .type { name := "Delay", body := .input [.one "by" "LocalTime"] },
   .typeExt { name := "Delay", body := .input [.one "on" "Date"] }]

def stationSettings : Settings := { temporal := .only [.time, .dateTime, .localTime] }

/-- Stations with temporal and spatial types in all places. -/
theorem stations_retarget : ∃ augmented, (stationDocument.augment stationSettings).outcome = .ok augmented ∧
    (∀ kind ∈ disabledKinds stationSettings, ∀ name ∈ kindTypes kind, name ∉ stationDocument.references) ∧
    ∃ catalog, (Catalog.ofDocument stationSettings stationDocument).outcome = .ok catalog ∧
      catalog.settings = stationSettings ∧ catalog.Retargets stationDocument augmented := by
  obtain ⟨augmented, h⟩ := Run.exists_of_isOk
    (by decide +kernel : (stationDocument.augment stationSettings).outcome.isOk)
  exact ⟨augmented, h, by decide +kernel, retargets_of_augment h⟩

/-- An operation type that is created under the name of a temporal type: the name is defined
twice. -/
example :
    ∃ cat, (Catalog.ofDocument {} [.schema { operations := [(.query, "_Neo4jDate")] },
      .object "A" [.one "d" "Date"]]).outcome = .ok cat ∧
        (cat.operationTypes.map (·.2.name)).count "_Neo4jDate" +
          (if "_Neo4jDate" ∈ cat.generated.keys then 1 else 0) = 2 :=
  Run.exists_of_any (by decide +kernel)

end GraphApi
