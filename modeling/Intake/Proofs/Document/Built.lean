import Intake.Document
import Intake.Proofs.Chain.Built
import Intake.Proofs.Fallible
/-!
# Documents build chains

What is built of a document is made by the functions that start and configure chains, so all that
holds of such chains holds of the chains of documents:

    d.build registry = .ok c → c.Built registry
-/

namespace Intake

namespace FieldSpec

variable {schema : Schema} {location : String} {c : Chain}

theorem built_of_addSteps {registry : Registry} {steps : List StepSpec} {c' : Chain}
    (hc : c.Built registry) (h : addSteps steps c = .ok c') : c'.Built registry :=
  foldlM_keeps (fun _ _ _ _ hbuilt hnext => .addStep hbuilt hnext) hc (mapError_eq_ok.1 h)

theorem built_of_buildLeaf {type : String} {path : Option String}
    (h : buildLeaf schema location type path = .ok c) : c.Built schema.registry := by
  unfold buildLeaf at h
  split at h
  · next kind hkind =>
    refine Except.ok.inj h ▸ .start fun _ => ?_
    unfold plainKind? at hkind
    split at hkind
    all_goals first | exact Option.some.inj hkind ▸ rfl | cases hkind
  · split at h
    · split at h
      · exact Except.ok.inj h ▸ .start fun _ => rfl
      · cases h
    · split at h
      · split at h
        · cases h
        · exact Except.ok.inj h ▸ .start fun _ => rfl
      · cases h

mutual

theorem built_of_build (s : FieldSpec) {location : String} {c : Chain}
    (h : build schema location s = .ok c) : c.Built schema.registry := by
  obtain ⟨type, required, forbidden, default?, label, steps, items, fields, unknownKeys, path,
    outputFormat⟩ := s
  rw [build] at h
  dsimp only at h
  split at h
  · cases h
  · split at h
    · obtain ⟨base, hbase, h⟩ := bind_eq_ok.1 h
      exact built_of_addSteps (.configure _ (built_of_buildItems items hbase)) h
    · split at h
      · obtain ⟨base, hbase, h⟩ := bind_eq_ok.1 h
        obtain ⟨members, hmembers, rfl⟩ := map_eq_ok.1 hbase
        have hobject : schema.object.Built schema.registry := .configure _ (.start fun _ => rfl)
        exact built_of_addSteps (.configure _ (built_of_buildFields fields hobject hmembers)) h
      · obtain ⟨base, hbase, h⟩ := bind_eq_ok.1 h
        exact built_of_addSteps (.configure _ (built_of_buildLeaf hbase)) h

theorem built_of_buildItems (items : Option FieldSpec) {location : String} {c : Chain}
    (h : buildItems schema location items = .ok c) : c.Built schema.registry := by
  cases items with
  | none => exact Except.ok.inj h ▸ .start fun _ => rfl
  | some item =>
    obtain ⟨member, hmember, rfl⟩ := map_eq_ok.1 h
    exact .items (.start fun _ => rfl) (built_of_build item hmember)

/-- One field after the other is put into the object. -/
theorem built_of_buildFields (fields : List (String × FieldSpec)) {location : String}
    {done members : List (String × Chain)}
    (hdone : (schema.object.mapKind fun _ => .object done).Built schema.registry)
    (h : buildFields schema location done fields = .ok members) :
    (schema.object.mapKind fun _ => .object members).Built schema.registry := by
  cases fields with
  | nil => exact Except.ok.inj h ▸ hdone
  | cons field rest =>
    obtain ⟨name, spec⟩ := field
    obtain ⟨member, hmember, h⟩ := bind_eq_ok.1 h
    exact built_of_buildFields rest (.field name hdone (built_of_build spec hmember)) h

end

end FieldSpec

theorem SchemaDocument.built_of_build {d : SchemaDocument} {registry : Registry} {c : Chain}
    (h : d.build registry = .ok c) : c.Built registry :=
  FieldSpec.built_of_build d.schema h

end Intake
