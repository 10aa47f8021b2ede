import Intake.Chain.Builder
import Intake.Entity
import Intake.Proofs.Table
/-!
# Built chains

`Built registry c` says that the chain `c` and all that it holds have been made by the functions
that start and configure chains over a registry.  Such chains name registered processors only, and
only the first step of a pipeline is a format step, whatever the order in which steps, options,
items and fields were given.
-/

namespace Intake

/-- The chain that a chain holds under a segment: of a field, or of the items. -/
def Kind.child? (kind : Kind) (segment : String) : Option Chain :=
  match kind with
  | .object fields => Table.get? fields segment
  | .array items => items
  | _ => none

namespace Chain

/-- The chain at an address. -/
def at? (c : Chain) : List String → Option Chain
  | [] => some c
  | segment :: rest => (c.kind.child? segment).bind (·.at? rest)

/-- Chains that are made by the functions that start and configure them. -/
inductive Built (registry : Registry) : Chain → Prop
  | start {kind : Kind} (h : ∀ segment, kind.child? segment = none) :
      Built registry (.ofKind kind registry)
  | configure {c : Chain} (f : Props → Props) (h : Built registry c) : Built registry (c.mapProps f)
  | addStep {c c' : Chain} {key : String} {args : List Operand} {prioritize : Bool}
      (h : Built registry c) (h' : c.addStep key args prioritize = .ok c') : Built registry c'
  | items {c item : Chain} (h : Built registry c) (hi : Built registry item) :
      Built registry (c.items item)
  | field {c member : Chain} (name : String) (h : Built registry c) (hm : Built registry member) :
      Built registry (c.field name member)

/-- What building keeps of a chain. -/
structure WellFormed (registry : Registry) (c : Chain) : Prop where
  registry_eq : c.registry = registry
  registered : ∀ s ∈ c.pipeline, ∃ key, Table.get? registry key = some s.processor
  format : ∀ s ∈ c.pipeline.tail, s.isFormat = false
  held : ∀ {segment inner}, c.kind.child? segment = some inner → Built registry inner

theorem mem_place {pipeline : List Step} {s t : Step} :
    t ∈ place pipeline s ↔ t = s ∨ t ∈ pipeline := by
  unfold place
  split
  · exact List.mem_cons
  · rw [List.mem_append, List.mem_singleton, or_comm]

/-- A step is only placed where it keeps format steps in the first place. -/
theorem format_place {pipeline : List Step} {s : Step} (h : ∀ t ∈ pipeline.tail, t.isFormat = false)
    (hs : misplacement? pipeline s.processor s.prioritize = none) :
    ∀ t ∈ (place pipeline s).tail, t.isFormat = false := by
  have hnone : formatStep? pipeline = none → ∀ t ∈ pipeline, t.isFormat = false := by
    intro hf t ht
    simpa using List.find?_eq_none.1 hf t ht
  intro t ht
  unfold misplacement? at hs
  cases hp : s.prioritize with
  | true =>
    -- what was there comes after the step
    rw [place, hp, if_pos rfl, List.tail_cons] at ht
    cases hf : formatStep? pipeline with
    | none => exact hnone hf t ht
    | some existing =>
      simp only [hp, hf, if_pos, Option.map_some] at hs
      split at hs <;> cases hs
  | false =>
    rw [place, hp, if_neg Bool.false_ne_true] at ht
    cases pipeline with
    | nil => cases ht
    | cons first rest =>
      rcases List.mem_append.1 ht with ht | ht
      · exact h t ht
      · rw [List.mem_singleton.1 ht]
        cases hformat : s.processor.isFormat with
        | false => exact hformat
        | true =>
          cases hf : formatStep? (first :: rest) <;> simp [hformat, hp, hf] at hs

theorem Built.wellFormed {registry : Registry} {c : Chain} (h : Built registry c) :
    WellFormed registry c := by
  induction h with
  | start h =>
    refine ⟨rfl, by simp [pipeline, ofKind], by simp [pipeline, ofKind],
      fun {segment inner} hc => ?_⟩
    exact absurd ((h segment).symm.trans hc) nofun
  | @configure c f h ih =>
    obtain ⟨kind, props, pipeline, reg⟩ := c
    exact ⟨ih.registry_eq, ih.registered, ih.format, ih.held⟩
  | @addStep c c' key args prioritize h h' ih =>
    obtain ⟨kind, props, pipeline, reg⟩ := c
    obtain rfl : reg = registry := ih.registry_eq
    unfold Chain.addStep at h'
    cases hget : Table.get? reg key with
    | none => simp [hget] at h'
    | some processor =>
      cases hplace : misplacement? pipeline processor prioritize with
      | some e => simp [hget, hplace] at h'
      | none =>
        simp only [hget, hplace, Except.ok.injEq] at h'
        subst h'
        refine ⟨rfl, fun s hs => ?_, format_place ih.format hplace, ih.held⟩
        have hs : s ∈ place pipeline ⟨processor, args, prioritize⟩ := hs
        rcases mem_place.1 hs with rfl | hs
        · exact ⟨key, hget⟩
        · exact ih.registered s hs
  | @items c item h hi ih ihi =>
    obtain ⟨kind, props, pipeline, reg⟩ := c
    refine ⟨ih.registry_eq, ih.registered, ih.format, fun {segment inner} hc => ?_⟩
    exact Option.some.inj hc ▸ hi
  | @field c member name h hm ih ihm =>
    obtain ⟨kind, props, pipeline, reg⟩ := c
    refine ⟨ih.registry_eq, ih.registered, ih.format, fun {segment inner} hc => ?_⟩
    cases kind with
    | object fields =>
      have hc : Table.get? (Table.put name member fields) segment = some inner := hc
      rw [Table.get?_put] at hc
      split at hc
      · exact Option.some.inj hc ▸ hm
      · exact ih.held hc
    | _ => exact ih.held hc

/-! ## Pipelines -/

end Chain

/-- Splitting a pipeline loses no step and changes no order. -/
theorem Pipeline.toList_ofSteps (steps : List Step) :
    (ofSteps steps).toList = steps.map fun s => ⟨s.processor, s.args⟩ := by
  unfold ofSteps
  cases steps.map fun s => CompiledStep.mk s.processor s.args with
  | nil => rfl
  | cons first rest =>
    dsimp only
    split <;> rfl

/-- A pipeline of registered steps, of which the first alone is a format step. -/
structure Pipeline.Registered (registry : Registry) (p : Pipeline) : Prop where
  format : ∀ s, p.format = some s →
    s.processor.isFormat = true ∧ ∃ key, Table.get? registry key = some s.processor
  steps : ∀ s ∈ p.steps,
    s.processor.isFormat = false ∧ ∃ key, Table.get? registry key = some s.processor

theorem Chain.Built.pipeline_registered {registry : Registry} {c : Chain}
    (h : Chain.Built registry c) : (Pipeline.ofSteps c.pipeline).Registered registry := by
  obtain ⟨-, hregistered, hformat, -⟩ := h.wellFormed
  unfold Pipeline.ofSteps
  generalize c.pipeline = steps at hregistered hformat ⊢
  cases steps with
  | nil => exact ⟨nofun, nofun⟩
  | cons first rest =>
    have hfirst := hregistered first List.mem_cons_self
    have hrest : ∀ s ∈ rest.map fun s => CompiledStep.mk s.processor s.args,
        s.processor.isFormat = false ∧ ∃ key, Table.get? registry key = some s.processor := by
      intro s hs
      obtain ⟨t, ht, rfl⟩ := List.mem_map.1 hs
      exact ⟨hformat t ht, hregistered t (List.mem_cons_of_mem _ ht)⟩
    rw [List.map_cons]
    dsimp only
    split
    · next hf =>
      refine ⟨fun s hs => ?_, hrest⟩
      obtain rfl := Option.some.inj hs
      exact ⟨hf, hfirst⟩
    · next hf =>
      refine ⟨nofun, fun s hs => ?_⟩
      rcases List.mem_cons.1 hs with rfl | hs
      · exact ⟨Bool.eq_false_iff.2 hf, hfirst⟩
      · exact hrest s hs

end Intake
