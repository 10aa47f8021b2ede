import Mathlib.Data.List.Perm.Basic
import Intake.Proofs.Chain.Reading
/-!
# Chains with their fields in another order

`c.Rearranged R c'` says that two chains differ in nothing but the order in which their objects, at
any depth, declare their fields; `R` is what is allowed to happen to the names of an object.  The
chain of the items of a list has no name, and nothing orders what it looks up inside of the list, so
it must look up nothing at all (`Chain.Silent`).

    mid.Perm fields' → (fields'.map (·.1)).Nodup → List.Forall₂ (…) fields mid →
      (mk (.object fields) props pipeline registry).Rearranged List.Perm
        (mk (.object fields') props pipeline registry)

A silent chain is rearranged to itself, whatever it holds.
-/

namespace Intake

/-- A kind that holds no chain. -/
def Kind.Leaf : Kind → Prop
  | .array (some _) => False
  | .object _ => False
  | _ => True

namespace Chain

/-- Neither the chain nor one inside of it looks up a path. -/
def Silent (c : Chain) : Prop := c.Throughout (·.reads = [])

/-- The same chain, with the fields of its objects in another order. -/
inductive Rearranged (R : List String → List String → Prop) : Chain → Chain → Prop
  | leaf {c : Chain} (h : c.kind.Leaf) : Rearranged R c c
  | array {items items' : Chain} {props : Props} {pipeline : List Step} {registry : Registry}
      (silent : items.Silent) (silent' : items'.Silent) (hi : Rearranged R items items') :
      Rearranged R (.mk (.array (some items)) props pipeline registry)
        (.mk (.array (some items')) props pipeline registry)
  | object {fields fields' : List (String × Chain)} {props : Props} {pipeline : List Step}
      {registry : Registry} (names : R (fields.map (·.1)) (fields'.map (·.1)))
      (hf : ∀ {name field field'}, Table.get? fields name = some field →
        Table.get? fields' name = some field' → Rearranged R field field') :
      Rearranged R (.mk (.object fields) props pipeline registry)
        (.mk (.object fields') props pipeline registry)

namespace Rearranged

variable {R : List String → List String → Prop} {c c' : Chain}

theorem symm (hR : ∀ {l l'}, R l l' → R l' l) (h : Rearranged R c c') : Rearranged R c' c := by
  induction h with
  | leaf h => exact .leaf h
  | array silent silent' _ ih => exact .array silent' silent ih
  | object names _ ih => exact .object (hR names) fun hf hf' => ih hf' hf

/-- The fields of an object are rearranged one by one, and then put in another order. -/
theorem of_perm {fields fields' : List (String × Chain)} {props : Props} {pipeline : List Step}
    {registry : Registry} (mid : List (String × Chain))
    (hf : List.Forall₂ (fun f g => f.1 = g.1 ∧ Rearranged List.Perm f.2 g.2) fields mid)
    (h : mid.Perm fields') (hnodup : (fields'.map (·.1)).Nodup) :
    Rearranged List.Perm (.mk (.object fields) props pipeline registry)
      (.mk (.object fields') props pipeline registry) := by
  have hpairs : fields.map (·.1) = mid.map (·.1) ∧
      ∀ f ∈ fields, ∃ g ∈ mid, f.1 = g.1 ∧ Rearranged List.Perm f.2 g.2 := by
    clear h
    induction hf with
    | nil => exact ⟨rfl, List.forall_mem_nil _⟩
    | @cons f g fields mid hfg _ ih =>
      refine ⟨congrArg₂ List.cons hfg.1 ih.1, List.forall_mem_cons.2 ⟨?_, fun f hf => ?_⟩⟩
      · exact ⟨g, List.mem_cons_self, hfg⟩
      · obtain ⟨g, hg, hfg⟩ := ih.2 f hf
        exact ⟨g, List.mem_cons_of_mem _ hg, hfg⟩
  refine .object (hpairs.1 ▸ h.map _) fun {name field field'} hfield hfield' => ?_
  obtain ⟨⟨name', g⟩, hg, rfl, hrearranged⟩ := hpairs.2 _ (Table.mem_of_get? hfield)
  have hget := Table.get?_of_mem hnodup (h.mem_iff.1 hg)
  exact Option.some.inj (hget.symm.trans hfield') ▸ hrearranged

mutual

/-- A chain that looks up nothing is fine as it is. -/
theorem of_silent (hR : ∀ l, R l l) : ∀ c : Chain, c.Silent → Rearranged R c c
  | .mk (.array (some items)) props pipeline registry, h => by
    have hitems : items.Silent := h.child (s := "") rfl
    exact .array hitems hitems (of_silent hR items hitems)
  | .mk (.object fields) props pipeline registry, h => by
    refine .object (hR _) fun {name field field'} hfield hfield' => ?_
    obtain rfl := Option.some.inj (hfield.symm.trans hfield')
    exact fields_of_silent hR fields _ (Table.mem_of_get? hfield) (h.child hfield)
  | .mk .any props pipeline registry, _
  | .mk .string props pipeline registry, _
  | .mk .number props pipeline registry, _
  | .mk .boolean props pipeline registry, _
  | .mk .date props pipeline registry, _
  | .mk (.array none) props pipeline registry, _
  | .mk (.reference path) props pipeline registry, _
  | .mk (.custom name) props pipeline registry, _ => .leaf trivial

theorem fields_of_silent (hR : ∀ l, R l l) : ∀ fields : List (String × Chain), ∀ f ∈ fields,
    f.2.Silent → Rearranged R f.2 f.2
  | [], f, hmem, _ => absurd hmem List.not_mem_nil
  | (name, field) :: rest, f, hmem, h => by
    rcases List.mem_cons.1 hmem with rfl | hmem
    · exact of_silent hR field h
    · exact fields_of_silent hR rest f hmem h

end

end Rearranged

end Chain

end Intake
