import RootCause.Grounding.Engine
import RootCause.Taxonomy.Registry

/-! The mapping of a grounding result: every registered taxonomy is asked about the family
of the pattern and is recorded once, with its entries or as one that has none. The status
of the result is copied and never looked at. -/
namespace RootCause.Taxonomy
open Library Dsl Grounding

structure TaxonomyMapping where
  taxonomy : String
  entries : List TaxonomyEntry
  deriving DecidableEq, Repr

structure TaxonomyReport where
  patternId : PatternId
  patternVersion : PatternVersion
  patternFamily : PatternFamily
  candidateId : CandidateId
  groundingStatus : GroundingStatus
  mappings : List TaxonomyMapping
  unmappedTaxonomies : List String
  deriving DecidableEq, Repr

structure MappingEngine where
  registry : TaxonomyRegistry

namespace MappingEngine

def new : MappingEngine := ⟨.withDefaultMappers⟩

def mapStep (engine : MappingEngine) (family : PatternFamily) (s : List TaxonomyMapping × List String)
    (taxonomy : String) : List TaxonomyMapping × List String :=
  match engine.registry.get taxonomy with
  | none => s
  | some mapper =>
    let entries := mapper.mapFamily family
    if entries.isEmpty then (s.1,s.2 ++ [taxonomy]) else (s.1 ++ [⟨taxonomy,entries⟩],s.2)

def map (h : HashOrder) (engine : MappingEngine) (result : GroundingResult) : TaxonomyReport :=
  let asked := (engine.registry.taxonomies h).foldl (engine.mapStep result.patternFamily) ([],[])
  { patternId := result.patternId
    patternVersion := result.patternVersion
    patternFamily := result.patternFamily
    candidateId := result.candidateId
    groundingStatus := result.status
    mappings := asked.1
    unmappedTaxonomies := asked.2 }

def mapAll (h : HashOrder) (engine : MappingEngine) (results : List GroundingResult) : List TaxonomyReport :=
  results.map (engine.map h)

def mapFamilyStep (engine : MappingEngine) (family : PatternFamily) (mappings : List TaxonomyMapping)
    (taxonomy : String) : List TaxonomyMapping :=
  match engine.registry.get taxonomy with
  | none => mappings
  | some mapper =>
    let entries := mapper.mapFamily family
    if entries.isEmpty then mappings else mappings ++ [⟨taxonomy,entries⟩]

def mapFamily (h : HashOrder) (engine : MappingEngine) (family : PatternFamily) : List TaxonomyMapping :=
  (engine.registry.taxonomies h).foldl (engine.mapFamilyStep family) []

def answer (engine : MappingEngine) (family : PatternFamily) (taxonomy : String) : Option TaxonomyMapping :=
  (engine.registry.get taxonomy).bind fun mapper =>
    if (mapper.mapFamily family).isEmpty then none else some ⟨taxonomy,mapper.mapFamily family⟩

def silent (engine : MappingEngine) (family : PatternFamily) (taxonomy : String) : Bool :=
  (engine.registry.get taxonomy).any fun mapper => (mapper.mapFamily family).isEmpty

section
variable {engine : MappingEngine} {family : PatternFamily} {names : List String}

theorem foldMapStep {s : List TaxonomyMapping × List String} :
    names.foldl (engine.mapStep family) s =
      (s.1 ++ names.filterMap (engine.answer family),s.2 ++ names.filter (engine.silent family)) := by
  induction names generalizing s with
  | nil => simp
  | cons name rest ih =>
    rw [List.foldl_cons,ih]
    cases found : engine.registry.get name with
    | none => simp [mapStep,answer,silent,found]
    | some mapper => by_cases none : mapper.mapFamily family = [] <;> simp [mapStep,answer,silent,found,none]

theorem mapMappings {h : HashOrder} {result : GroundingResult} : (engine.map h result).mappings =
    (engine.registry.taxonomies h).filterMap (engine.answer result.patternFamily) := by
  simp only [map,foldMapStep,List.nil_append]

theorem mapUnmapped {h : HashOrder} {result : GroundingResult} : (engine.map h result).unmappedTaxonomies =
    (engine.registry.taxonomies h).filter (engine.silent result.patternFamily) := by
  simp only [map,foldMapStep,List.nil_append]

theorem foldMapFamilyStep {mappings : List TaxonomyMapping} :
    names.foldl (engine.mapFamilyStep family) mappings =
      mappings ++ names.filterMap (engine.answer family) := by
  induction names generalizing mappings with
  | nil => simp
  | cons name rest ih =>
    rw [List.foldl_cons,ih]
    cases found : engine.registry.get name with
    | none => simp [mapFamilyStep,answer,found]
    | some mapper => by_cases none : mapper.mapFamily family = [] <;> simp [mapFamilyStep,answer,found,none]

theorem answered {taxonomy : String} {entries : List TaxonomyEntry} :
    ⟨taxonomy,entries⟩ ∈ names.filterMap (engine.answer family) ↔ taxonomy ∈ names ∧ entries ≠ [] ∧
      ∃ mapper, engine.registry.get taxonomy = some mapper ∧ mapper.mapFamily family = entries := by
  simp only [List.mem_filterMap,answer,Option.bind_eq_some_iff]
  constructor
  · rintro ⟨name,mem,mapper,found,same⟩
    split at same
    · cases same
    · rename_i some
      cases same
      exact ⟨mem,by simpa using some,mapper,found,rfl⟩
  · rintro ⟨mem,some,mapper,found,rfl⟩
    refine ⟨taxonomy,mem,mapper,found,if_neg ?_⟩
    simpa using some

theorem answersNamed : (names.filterMap (engine.answer family)).map TaxonomyMapping.taxonomy =
    names.filter fun name => (engine.answer family name).isSome := by
  induction names with
  | nil => rfl
  | cons name rest ih =>
    cases given : engine.answer family name with
    | none => simp [given,ih]
    | some mapping =>
      have named : mapping.taxonomy = name := by
        obtain ⟨mapper,_,same⟩ := Option.bind_eq_some_iff.mp given
        split at same
        · cases same
        · cases same
          rfl
      simp [given,ih,named]

theorem mapFamilySome {h : HashOrder} {mappers : List TaxonomyMapper} :
    mapFamily h ⟨.registered mappers⟩ family ≠ [] ↔
      ∃ taxonomy mapper, latest mappers taxonomy = some mapper ∧ mapper.mapFamily family ≠ [] := by
  rw [mapFamily,foldMapFamilyStep,List.nil_append]
  constructor
  · intro some
    obtain ⟨⟨taxonomy,entries⟩,mem⟩ := List.exists_mem_of_ne_nil _ some
    obtain ⟨_,some,mapper,found,rfl⟩ := answered.mp mem
    exact ⟨taxonomy,mapper,by rwa [← TaxonomyRegistry.getRegistered],some⟩
  · rintro ⟨taxonomy,mapper,found,some⟩
    rw [← TaxonomyRegistry.getRegistered] at found
    have listed := TaxonomyRegistry.memTaxonomies (h := h).mpr ⟨mapper,found⟩
    exact List.ne_nil_of_mem (answered.mpr ⟨listed,some,mapper,found,rfl⟩)

end
end MappingEngine

/- A report on a family under a series of registrations: every registered taxonomy once and
in order, under its latest mapper, apart by whether that mapper has entries. -/
structure Reports (mappers : List TaxonomyMapper) (family : PatternFamily) (report : TaxonomyReport) : Prop where
  mapped : (report.mappings.map TaxonomyMapping.taxonomy).Pairwise (· < ·)
  unmapped : report.unmappedTaxonomies.Pairwise (· < ·)
  entries : ∀ taxonomy entries, ⟨taxonomy,entries⟩ ∈ report.mappings ↔ entries ≠ [] ∧
    ∃ mapper, latest mappers taxonomy = some mapper ∧ mapper.mapFamily family = entries
  none : ∀ taxonomy, taxonomy ∈ report.unmappedTaxonomies ↔
    ∃ mapper, latest mappers taxonomy = some mapper ∧ mapper.mapFamily family = []

theorem mappingExact (h : HashOrder) (mappers : List TaxonomyMapper) (result : GroundingResult) :
    Reports mappers result.patternFamily (MappingEngine.map h ⟨.registered mappers⟩ result) ∧
    (MappingEngine.map h ⟨.registered mappers⟩ result).mappings =
      MappingEngine.mapFamily h ⟨.registered mappers⟩ result.patternFamily ∧
    ∀ h', MappingEngine.map h' ⟨.registered mappers⟩ result =
      MappingEngine.map h ⟨.registered mappers⟩ result := by
  have increasing := TaxonomyRegistry.taxonomiesIncreasing h (.registered mappers)
  refine ⟨⟨?_,?_,?_,?_⟩,?_,?_⟩
  · rw [MappingEngine.mapMappings,MappingEngine.answersNamed]
    exact increasing.filter _
  · rw [MappingEngine.mapUnmapped]
    exact increasing.filter _
  · intro taxonomy entries
    rw [MappingEngine.mapMappings,MappingEngine.answered,TaxonomyRegistry.memTaxonomies,
      TaxonomyRegistry.getRegistered]
    constructor
    · rintro ⟨_,given⟩
      exact given
    · rintro ⟨some,mapper,found,same⟩
      exact ⟨⟨mapper,found⟩,some,mapper,found,same⟩
  · intro taxonomy
    rw [MappingEngine.mapUnmapped,List.mem_filter,TaxonomyRegistry.memTaxonomies,MappingEngine.silent,
      TaxonomyRegistry.getRegistered]
    constructor
    · rintro ⟨⟨mapper,found⟩,none⟩
      rw [found] at none
      exact ⟨mapper,found,by simpa using none⟩
    · rintro ⟨mapper,found,none⟩
      exact ⟨⟨mapper,found⟩,by simp [found,none]⟩
  · rw [MappingEngine.mapMappings,MappingEngine.mapFamily,MappingEngine.foldMapFamilyStep,List.nil_append]
  · intro h'
    simp only [MappingEngine.map,TaxonomyRegistry.taxonomiesSame h' h]

end RootCause.Taxonomy
