import Intake.Document
import Intake.Proofs.Fallible
/-!
# Well-formed fields

A field is `Sound` if no option is set on a type that ignores it, its type exists, a reference says
where it leads, and a chain accepts its steps one after the other.  The faults of a tree of fields
stand in the order in which building comes upon them: of each field first the options, then what
its items and members are at fault in, then its type or path, and at last its steps.

    s.faults registry location = [] ↔ ∀ t ∈ s.nodes, t.Sound registry
-/

namespace Intake

/-! ## The parts of a field -/

namespace FieldSpec

def required : FieldSpec → Bool
  | mk _ required _ _ _ _ _ _ _ _ _ => required

def forbidden : FieldSpec → Bool
  | mk _ _ forbidden _ _ _ _ _ _ _ _ => forbidden

def default? : FieldSpec → Option ArgSpec
  | mk _ _ _ default? _ _ _ _ _ _ _ => default?

def label : FieldSpec → Option String
  | mk _ _ _ _ label _ _ _ _ _ _ => label

def steps : FieldSpec → List StepSpec
  | mk _ _ _ _ _ steps _ _ _ _ _ => steps

def items : FieldSpec → Option FieldSpec
  | mk _ _ _ _ _ _ items _ _ _ _ => items

def fields : FieldSpec → List (String × FieldSpec)
  | mk _ _ _ _ _ _ _ fields _ _ _ => fields

def unknownKeys : FieldSpec → Option UnknownKeys
  | mk _ _ _ _ _ _ _ _ unknownKeys _ _ => unknownKeys

def path : FieldSpec → Option String
  | mk _ _ _ _ _ _ _ _ _ path _ => path

def outputFormat : FieldSpec → Option String
  | mk _ _ _ _ _ _ _ _ _ _ outputFormat => outputFormat

mutual

/-- The field and all below it, each before those that it holds. -/
def nodes : FieldSpec → List FieldSpec
  | mk type required forbidden default? label steps items fields unknownKeys path outputFormat =>
    mk type required forbidden default? label steps items fields unknownKeys path outputFormat
      :: (itemNodes items ++ memberNodes fields)

def itemNodes : Option FieldSpec → List FieldSpec
  | none => []
  | some item => nodes item

def memberNodes : List (String × FieldSpec) → List FieldSpec
  | [] => []
  | (_, field) :: rest => nodes field ++ memberNodes rest

end

end FieldSpec

/-! ## Types and options -/

/-- The types that are no custom ones. -/
def builtinTypes : List String :=
  ["any", "string", "number", "boolean", "date", "array", "object", "ref"]

/-- A custom type has a prefix that tells it from the others. -/
def IsCustom (type : String) : Prop := ∃ name, type = "custom:" ++ name

/-- A type that exists; a custom one has a name. -/
def IsType (type : String) : Prop :=
  type ∈ builtinTypes ∨ ∃ name, name ≠ "" ∧ type = "custom:" ++ name

theorem customName?_eq_some_iff {type name : String} :
    FieldSpec.customName? type = some name ↔ type = "custom:" ++ name := by
  unfold FieldSpec.customName?
  rw [Option.ite_none_right_eq_some, List.isPrefixOf_iff_prefix]
  constructor
  · rintro ⟨⟨rest, hrest⟩, h⟩
    rw [← hrest, List.drop_left] at h
    rw [← Option.some.inj h, ← String.toList_inj, ← hrest, String.toList_append]
    exact congrArg ("custom:".toList ++ ·) String.toList_ofList.symm
  · rintro rfl
    rw [String.toList_append]
    exact ⟨List.prefix_append _ _, by rw [List.drop_left, String.ofList_toList]⟩

theorem isSome_customName?_iff {type : String} :
    (FieldSpec.customName? type).isSome = true ↔ IsCustom type := by
  simp only [Option.isSome_iff_exists, customName?_eq_some_iff, IsCustom]

instance (type : String) : Decidable (IsCustom type) :=
  decidable_of_iff _ isSome_customName?_iff

instance (type : String) : Decidable (IsType type) :=
  decidable_of_iff
    (type ∈ builtinTypes ∨ (FieldSpec.customName? type).any (fun name => name ≠ "") = true) <| by
    simp only [Option.any_eq_true, decide_eq_true_eq, customName?_eq_some_iff, IsType]
    refine or_congr_right (exists_congr fun name => and_comm)

/-- The options that some types ignore. -/
inductive FieldOption where
  | items
  | fields
  | unknownKeys
  | path
  | outputFormat
deriving DecidableEq

namespace FieldOption

/-- The options in the order in which they are looked at. -/
def all : List FieldOption := [items, fields, unknownKeys, path, outputFormat]

/-- The name in a document. -/
def name : FieldOption → String
  | items => "items"
  | fields => "fields"
  | unknownKeys => "unknown_keys"
  | path => "path"
  | outputFormat => "output_format"

/-- The types that use an option. -/
def AppliesTo : FieldOption → String → Prop
  | items, type => type = "array"
  | fields, type => type = "object"
  | unknownKeys, type => type = "object" ∨ IsCustom type
  | path, type => type = "ref"
  | outputFormat, type => type = "date" ∨ IsCustom type

instance : (o : FieldOption) → (type : String) → Decidable (o.AppliesTo type)
  | items, type => inferInstanceAs (Decidable (type = "array"))
  | fields, type => inferInstanceAs (Decidable (type = "object"))
  | unknownKeys, type => inferInstanceAs (Decidable (type = "object" ∨ IsCustom type))
  | path, type => inferInstanceAs (Decidable (type = "ref"))
  | outputFormat, type => inferInstanceAs (Decidable (type = "date" ∨ IsCustom type))

end FieldOption

namespace FieldSpec

/-- Whether an option is set. -/
def sets (s : FieldSpec) : FieldOption → Bool
  | .items => s.items.isSome
  | .fields => !s.fields.isEmpty
  | .unknownKeys => s.unknownKeys.isSome
  | .path => s.path.isSome
  | .outputFormat => s.outputFormat.isSome

/-- The options that are set although the type ignores them. -/
def ignored (s : FieldSpec) : List FieldOption :=
  FieldOption.all.filter fun o => s.sets o && !decide (o.AppliesTo s.type)

/-- The first of them is the one that building complains about. -/
theorem unusedOption?_eq (s : FieldSpec) : s.unusedOption? = s.ignored.head?.map (·.name) := by
  obtain ⟨type, required, forbidden, default?, label, steps, items, fields, unknownKeys, path,
    outputFormat⟩ := s
  have hcustom : ∀ builtin, (type == builtin || (customName? type).isSome) =
      decide (type = builtin ∨ IsCustom type) := by
    intro builtin
    rw [Bool.decide_or, Bool.beq_eq_decide_eq]
    congr 1
    rw [Bool.eq_iff_iff, isSome_customName?_iff, decide_eq_true_iff]
  rw [unusedOption?, hcustom, hcustom, ignored, List.head?_filter]
  show Option.map (·.1) (List.find? _ (FieldOption.all.map fun o => (o.name, sets (mk type required
    forbidden default? label steps items fields unknownKeys path outputFormat) o,
      decide (o.AppliesTo type)))) = _
  rw [List.find?_map, Option.map_map]
  rfl

theorem ignored_eq_nil_iff {s : FieldSpec} :
    s.ignored = [] ↔ ∀ o : FieldOption, s.sets o = true → o.AppliesTo s.type := by
  have hall : ∀ o : FieldOption, o ∈ FieldOption.all := by
    intro o
    cases o <;> decide
  simp [ignored, List.filter_eq_nil_iff, hall]

/-- A field that ignores none of its options holds items only as a list, and members only as an
object. -/
theorem items_eq_none {s : FieldSpec} (h : s.ignored = []) (hne : s.type ≠ "array") :
    s.items = none :=
  Option.not_isSome_iff_eq_none.1 fun hset => hne (ignored_eq_nil_iff.1 h .items hset)

theorem fields_eq_nil {s : FieldSpec} (h : s.ignored = []) (hne : s.type ≠ "object") :
    s.fields = [] := by
  by_contra hset
  exact hne (ignored_eq_nil_iff.1 h .fields (by simpa [sets] using hset))

/-! ## Steps -/

/-- A chain accepts steps one after the other.  A step goes to the front if it is prioritized or
its processor is a format one. -/
inductive Accepts : Chain → List StepSpec → Chain → Prop
  | nil (c : Chain) : Accepts c [] c
  | cons {c next c' : Chain} {s : StepSpec} {rest : List StepSpec}
      (added : c.addStep s.name (s.args.map (·.operand))
        (s.prioritize || isFormat c.registry s.name) = .ok next)
      (others : Accepts next rest c') : Accepts c (s :: rest) c'

/-- What is wrong with the first of some steps that a chain refuses. -/
def refusal? (c : Chain) : List StepSpec → Option BuildError
  | [] => none
  | s :: rest =>
    match addSpec c s with
    | .error e => some e
    | .ok next => refusal? next rest

/-- What becomes of a pipeline does not depend on the kind and the options of the chain. -/
theorem exists_addSpec (pipeline : List Step) (registry : Registry) (s : StepSpec) :
    ∃ x : Except BuildError (List Step), ∀ kind props,
      addSpec (.mk kind props pipeline registry) s =
        x.map fun next => .mk kind props next registry := by
  unfold addSpec Chain.addStep
  simp only [Chain.registry]
  cases Table.get? registry s.name with
  | none => exact ⟨.error _, fun _ _ => rfl⟩
  | some p =>
    dsimp only
    cases Chain.misplacement? pipeline p (s.prioritize || isFormat registry s.name) with
    | none => exact ⟨.ok _, fun _ _ => rfl⟩
    | some e => exact ⟨.error e, fun _ _ => rfl⟩

/-- Steps are refused alike by chains of any kind and options. -/
theorem refusal?_eq (kind kind' : Kind) (props props' : Props) (pipeline : List Step)
    (registry : Registry) (steps : List StepSpec) :
    refusal? (.mk kind props pipeline registry) steps =
      refusal? (.mk kind' props' pipeline registry) steps := by
  induction steps generalizing pipeline with
  | nil => rfl
  | cons s rest ih =>
    obtain ⟨x, hx⟩ := exists_addSpec pipeline registry s
    rw [refusal?, refusal?, hx, hx]
    cases x with
    | error e => rfl
    | ok next => exact ih next

theorem refusal?_eq_none_iff {steps : List StepSpec} {c : Chain} :
    refusal? c steps = none ↔ ∃ c', Accepts c steps c' := by
  induction steps generalizing c with
  | nil => exact ⟨fun _ => ⟨c, .nil c⟩, fun _ => rfl⟩
  | cons s rest ih =>
    rw [refusal?]
    cases hs : addSpec c s with
    | error e =>
      refine ⟨nofun, ?_⟩
      rintro ⟨c', hc'⟩
      cases hc' with
      | cons added _ => cases hs.symm.trans added
    | ok next =>
      refine ih.trans ⟨fun ⟨c', hrest⟩ => ⟨c', .cons hs hrest⟩, ?_⟩
      rintro ⟨c', hc'⟩
      cases hc' with
      | cons added others => exact ⟨c', Except.ok.inj (hs.symm.trans added) ▸ others⟩

/-! ## Faults -/

/-- What is asked of a field by itself. -/
structure Sound (registry : Registry) (s : FieldSpec) : Prop where
  options : ∀ o : FieldOption, s.sets o = true → o.AppliesTo s.type
  type : IsType s.type
  path : s.type = "ref" → s.path.isSome = true
  steps : ∀ kind props, ∃ c, Accepts (.mk kind props [] registry) s.steps c

/-- What is wrong with the type of a field, or with the path of a reference. -/
def typeFault? (location type : String) (path : Option String) : Option DocumentError :=
  if type = "ref" then if path.isSome then none else some (.missingPath location)
  else if IsType type then none
  else some (.unknownType location type)

theorem typeFault?_eq_none_iff {location type : String} {path : Option String} :
    typeFault? location type path = none ↔ IsType type ∧ (type = "ref" → path.isSome = true) := by
  unfold typeFault?
  by_cases href : type = "ref"
  · have htype : IsType "ref" := .inl (by decide)
    cases path <;> simp [href, htype]
  · simp [href]

theorem typeFault?_of_isType {location type : String} {path : Option String} (h : IsType type)
    (hne : type ≠ "ref") : typeFault? location type path = none :=
  typeFault?_eq_none_iff.2 ⟨h, fun href => absurd href hne⟩

mutual

/-- The faults of a field and of all below it, in the order in which building looks for them. -/
def faults (registry : Registry) (location : String) : FieldSpec → List DocumentError
  | mk type required forbidden default? label steps items fields unknownKeys path outputFormat =>
    let spec :=
      mk type required forbidden default? label steps items fields unknownKeys path outputFormat
    spec.ignored.map (fun o => .unusedOption location o.name type)
      ++ itemFaults registry (location ++ ".items") items
      ++ memberFaults registry (location ++ ".fields.") fields
      ++ (typeFault? location type path).toList
      ++ ((refusal? (.ofKind .any registry) steps).map DocumentError.build).toList

def itemFaults (registry : Registry) (location : String) : Option FieldSpec → List DocumentError
  | none => []
  | some item => faults registry location item

def memberFaults (registry : Registry) (location : String) :
    List (String × FieldSpec) → List DocumentError
  | [] => []
  | (name, field) :: rest =>
    faults registry (location ++ name) field ++ memberFaults registry location rest

end

variable {registry : Registry}

theorem nodes_eq (s : FieldSpec) : s.nodes = s :: (itemNodes s.items ++ memberNodes s.fields) := by
  obtain ⟨⟩ := s
  rw [nodes]
  rfl

theorem faults_eq (s : FieldSpec) (location : String) :
    s.faults registry location =
      s.ignored.map (fun o => DocumentError.unusedOption location o.name s.type)
        ++ itemFaults registry (location ++ ".items") s.items
        ++ memberFaults registry (location ++ ".fields.") s.fields
        ++ (typeFault? location s.type s.path).toList
        ++ ((refusal? (.ofKind .any registry) s.steps).map DocumentError.build).toList := by
  obtain ⟨⟩ := s
  rw [faults]
  rfl

theorem sound_iff {s : FieldSpec} {location : String} :
    s.Sound registry ↔ s.ignored = [] ∧ typeFault? location s.type s.path = none ∧
      refusal? (.ofKind .any registry) s.steps = none := by
  rw [ignored_eq_nil_iff, typeFault?_eq_none_iff]
  constructor
  · rintro ⟨hoptions, htype, hpath, hsteps⟩
    exact ⟨hoptions, ⟨htype, hpath⟩, refusal?_eq_none_iff.2 (hsteps .any {})⟩
  · rintro ⟨hoptions, ⟨htype, hpath⟩, hsteps⟩
    refine ⟨hoptions, htype, hpath, fun kind props => refusal?_eq_none_iff.1 ?_⟩
    rw [← hsteps]
    exact refusal?_eq kind .any props {} [] registry s.steps

mutual

/-- There is no fault where every field is sound by itself. -/
theorem faults_eq_nil_iff (s : FieldSpec) (location : String) :
    s.faults registry location = [] ↔ ∀ t ∈ s.nodes, t.Sound registry := by
  obtain ⟨type, required, forbidden, default?, label, steps, items, fields, unknownKeys, path,
    outputFormat⟩ := s
  rw [faults, nodes, List.forall_mem_cons, List.forall_mem_append,
    ← itemFaults_eq_nil_iff items (location ++ ".items"),
    ← memberFaults_eq_nil_iff fields (location ++ ".fields."), sound_iff]
  simp only [List.append_eq_nil_iff, List.map_eq_nil_iff, Option.toList_eq_nil_iff,
    Option.map_eq_none_iff]
  constructor
  · rintro ⟨⟨⟨⟨hignored, hitems⟩, hmembers⟩, htype⟩, hsteps⟩
    exact ⟨⟨hignored, htype, hsteps⟩, hitems, hmembers⟩
  · rintro ⟨⟨hignored, htype, hsteps⟩, hitems, hmembers⟩
    exact ⟨⟨⟨⟨hignored, hitems⟩, hmembers⟩, htype⟩, hsteps⟩

theorem itemFaults_eq_nil_iff (items : Option FieldSpec) (location : String) :
    itemFaults registry location items = [] ↔ ∀ t ∈ itemNodes items, t.Sound registry := by
  cases items with
  | none => simp [itemFaults, itemNodes]
  | some item => exact faults_eq_nil_iff item location

theorem memberFaults_eq_nil_iff (fields : List (String × FieldSpec)) (location : String) :
    memberFaults registry location fields = [] ↔ ∀ t ∈ memberNodes fields, t.Sound registry := by
  cases fields with
  | nil => simp [memberFaults, memberNodes]
  | cons field rest =>
    obtain ⟨name, field⟩ := field
    rw [memberFaults, memberNodes, List.forall_mem_append, List.append_eq_nil_iff,
      faults_eq_nil_iff field, memberFaults_eq_nil_iff rest]

end

end FieldSpec

end Intake
