import Intake.Proofs.Entity.Cycles.Refused
/-!
# Cycles

The standard mapper refuses a tree of objects, scalars and references for one reason only: its
references close a cycle.  What it takes for a cycle is told from the chains alone:

    … compile c = .error (cycle) ↔ c.Circular ∨ c.ReadsAround ∨ c.Returns

Members that depend on one another in a circle and paths to an object around the reader have no
order.  A path that returns to the branch of its reader may have one, but is refused as well
(`compile_branching_refused`).
-/

namespace Intake

open Relation

namespace Mapper

open Chain

/-- A tree of objects, scalars and references that name declared chains compiles, or is refused
because it has a cycle: members that depend on one another in a circle, a path to an object around
the reader, or a path that returns to the branch of its reader. -/
theorem compile_cycle_iff {c : Chain} (hplain : c.Throughout Plain) (hresolved : c.Resolved) :
    ((∃ p s, standard.compile c = .error (.schedule (.cycle p s))) ↔
      c.Circular ∨ c.ReadsAround ∨ c.Returns) ∧
    ((∃ e, standard.compile c = .ok e) ↔ ¬ (c.Circular ∨ c.ReadsAround ∨ c.Returns)) := by
  have hok : ∀ e, standard.compile c = .ok e → ¬ c.Faulty := by
    intro e he
    obtain ⟨rfl, hfits⟩ := compile_fits he
    exact Entity.not_faulty (compile_arranged he) hfits hplain
  have hends : Ends (fun _ => True) (Closes c) (standard.compile c) := by
    have hends : Ends _ _ ((standard.compileChain c none).run 0) :=
      compileChain_ends hplain hresolved c [] 0 rfl
    unfold compile compileCounting
    cases hrun : (standard.compileChain c none).run 0 with
    | ok out => trivial
    | error err =>
      rw [hrun] at hends
      exact hends
  show (_ ↔ c.Faulty) ∧ (_ ↔ ¬ c.Faulty)
  cases hc : standard.compile c with
  | ok e => simpa using hok e hc
  | error err =>
    rw [hc] at hends
    obtain ⟨⟨p, s, rfl⟩, hfaulty⟩ := hends
    simpa using hfaulty

/-! A schema without a cycle that is refused: in the object `b` of the object `a`, the member `x`
looks up its sibling `y` from the root. -/

/-- The object with the reader. -/
def branch : Chain :=
  let schema : Schema := { registry := Registry.empty }
  (schema.object.field "x" (schema.reference ⟨["a", "b", "y"]⟩)).field "y" schema.any

def branching : Chain :=
  let schema : Schema := { registry := Registry.empty }
  schema.object.field "a" (schema.object.field "b" branch)

theorem plain_branching : branching.Throughout Plain := by
  have hobject : ∀ {c : Chain} {fields : List (String × Chain)}, c.kind = .object fields →
      (fields.map (·.1)).Nodup → c.checkPresence = .ok () → c.Plain := by
    intro c fields hk hnodup hpresence
    have htag : c.tag = .object := congrArg Kind.tag hk
    refine ⟨htag ▸ nofun, fun _ => htag ▸ nofun, fun fields' hk' => ?_, hpresence, fun hdate => ?_⟩
    · obtain rfl := Kind.object.inj (hk.symm.trans hk')
      exact hnodup
    · cases hk.symm.trans hdate
  refine .object rfl (hobject rfl (by decide) rfl) (List.forall_mem_singleton.2 ?_)
  refine .object rfl (hobject rfl (by decide) rfl) (List.forall_mem_singleton.2 ?_)
  refine .object rfl (hobject rfl (by decide) rfl)
    (List.forall_mem_cons.2 ⟨?_, List.forall_mem_singleton.2 ?_⟩)
  · exact .leaf (fun _ => rfl) ⟨nofun, nofun, nofun, rfl, nofun⟩
  · exact .leaf (fun _ => rfl) ⟨nofun, nofun, nofun, rfl, nofun⟩

/-- What is looked up, and where it leads. -/
theorem reads_branching {reader : List String} {path : Path} (h : branching.Reads reader path) :
    reader = ["a", "b", "x"] ∧ path = ⟨["a", "b", "y"]⟩ := by
  obtain ⟨f, hf, _, rfl, ha⟩ := h.of_object rfl rfl
  obtain rfl := List.mem_singleton.1 hf
  obtain ⟨f, hf, _, rfl, hb⟩ := ha.of_object rfl rfl
  obtain rfl := List.mem_singleton.1 hf
  obtain ⟨f, hf, _, rfl, hf'⟩ := hb.of_object rfl rfl
  have hf : f ∈ [("x", Chain.ofKind (.reference ⟨["a", "b", "y"]⟩) Registry.empty),
      ("y", Chain.ofKind .any Registry.empty)] := hf
  rcases List.mem_cons.1 hf with rfl | hf
  · obtain ⟨rfl, hpath⟩ := hf'.of_leaf fun _ => rfl
    exact ⟨rfl, List.mem_singleton.1 hpath⟩
  · obtain rfl := List.mem_singleton.1 hf
    obtain ⟨rfl, hpath⟩ := hf'.of_leaf fun _ => rfl
    cases hpath

theorem resolve_branching :
    branching.resolve? ["a", "b", "x"] ⟨["a", "b", "y"]⟩ = some ["a", "b", "y"] := by
  decide

theorem resolved_branching : branching.Resolved := by
  intro reader path h
  obtain ⟨rfl, rfl⟩ := reads_branching h
  rw [resolve_branching]
  rfl

theorem compile_cycle_iff_branching :
    branching.Throughout Plain ∧ branching.Resolved ∧
      ∃ p s, standard.compile branching = .error (.schedule (.cycle p s)) := by
  refine ⟨plain_branching, resolved_branching, ?_⟩
  refine (compile_cycle_iff plain_branching resolved_branching).1.2 (.inr (.inr ?_))
  exact ⟨[], "a", "b", ["x"], ⟨["a", "b", "y"]⟩, ["y"], ⟨_, rfl, List.mem_singleton.2 rfl⟩,
    by decide, rfl⟩

/-- No member depends on itself and no path leads to an object around its reader, and yet the
schema is refused. -/
theorem compile_branching_refused :
    branching.Throughout Plain ∧ branching.Resolved ∧
      standard.compile branching = .error (.schedule (.cycle "b" "b")) ∧
      ¬ (branching.Circular ∨ branching.ReadsAround) := by
  have hleads : ∀ {reader path target}, branching.Reads reader path →
      branching.resolve? reader path = some target →
      reader = ["a", "b", "x"] ∧ target = ["a", "b", "y"] := by
    intro reader path target hreads htarget
    obtain ⟨rfl, rfl⟩ := reads_branching hreads
    exact ⟨rfl, Option.some.inj (htarget.symm.trans resolve_branching)⟩
  refine ⟨plain_branching, resolved_branching, by cbv, ?_⟩
  rintro (⟨object, name, hcycle⟩ | ⟨target, s, below, path, hreads, htarget⟩)
  · have hedge : ∀ {name other}, branching.DependsOn object name other →
        name = "x" ∧ other = "y" := by
      rintro name other ⟨hne, below, path, rest, hreads, htarget⟩
      obtain ⟨hreader, htarget⟩ := hleads hreads htarget
      rcases object with _ | ⟨p, _ | ⟨q, _ | ⟨t, object⟩⟩⟩ <;> simp_all
    obtain ⟨_, hfirst, -⟩ := TransGen.head'_iff.1 hcycle
    obtain ⟨_, -, hlast⟩ := TransGen.tail'_iff.1 hcycle
    exact absurd ((hedge hfirst).1.symm.trans (hedge hlast).2) (by decide)
  · obtain ⟨hreader, rfl⟩ := hleads hreads htarget
    simp at hreader

end Mapper

end Intake
