import Intake.Outcome
import Intake.Proofs.Entity.Rearranged
import Intake.Proofs.Run.Mimicry
/-!
# Declaration order does not matter

Two chains that differ in the order of the fields of their objects compile both or not at all, and
what they make of an input shows the same at every address, up to the order in which an issue names
the members that fail (`declaration_order`):

    c.Rearranged List.Perm c' → standard.compile c = .ok e → standard.compile c' = .ok e' →
      Option.Rel (Tracker.Resembles List.Perm) ((e.run input).tree.seen? root address)
        ((e'.run input).tree.seen? root address)

The schedules may differ.  But every member waits for what it looks up, so it finds the same in any
order that serves the edges.
-/

namespace Intake

namespace Run

open TrackerTree Entity

/-- Two entities may begin at the roots of fresh trees, where paths lead nowhere. -/
theorem ready_ofValue {R : List String → List String → Prop} (hR : Shuffles R) (e : Entity)
    (input : Option Value) : Ready R none e root root (.ofValue input) (.ofValue input) := by
  have hget : (TrackerTree.ofValue input).get? root = some { value := input } := rfl
  have hsteady : ∀ path, Steady root (TrackerTree.ofValue input) path none := by
    intro path t' hg
    obtain ⟨k, hk, hparent, -, -⟩ := hg.place hget
    have henclosing : t'.enclosing root = [] := by simp [enclosing, hk, hparent]
    rw [resolve, locateFrom_eq]
    cases path.first? <;> simp [ entry?, henclosing]
  exact ⟨⟨linked_ofValue input, linked_ofValue input⟩, ⟨⟨_, hget, rfl⟩, ⟨_, hget, rfl⟩⟩,
    .of_bare hR hget hget rfl ⟨rfl, rfl⟩ ⟨rfl, rfl⟩, ⟨.unnamed, .unnamed⟩,
    fun path _ => .inr ⟨none, hsteady path, hsteady path⟩⟩

/-- Runs that are in pace from fresh trees on have the same outcome. -/
theorem InPace.outcome {R : List String → List String → Prop} (hR : Shuffles R)
    {input : Option Value} {r s : Run}
    (h : InPace R root root (.ofValue input) (.ofValue input) r s) :
    r.finalValue = s.finalValue ∧ r.isValid = s.isValid ∧ r.steps = s.steps ∧
      ∀ address, Option.Rel (Tracker.Resembles R) (r.tree.seen? root address)
        (s.tree.seen? root address) := by
  obtain ⟨n, hr, hs⟩ := h.steps
  have hissues := h.alike.hasIssuesBelow_eq hR h.left.grows.linked h.right.grows.linked
  exact ⟨h.alike.value?_eq, congrArg (! ·) hissues, hr.trans hs.symm, h.alike.seen hR⟩

/-- The order in which the objects of a tree declare their fields decides neither whether it
compiles nor what becomes of an input: the final value, whether it is valid, the number of steps,
and at each address the value and the issues, which may name failing members in another order. -/
theorem declaration_order {c c' : Chain} (h : c.Rearranged List.Perm c') :
    ((∃ e, Mapper.standard.compile c = .ok e) ↔ ∃ e', Mapper.standard.compile c' = .ok e') ∧
    ∀ e e', Mapper.standard.compile c = .ok e → Mapper.standard.compile c' = .ok e' →
      ∀ input, (e.run input).finalValue = (e'.run input).finalValue ∧
        (e.run input).isValid = (e'.run input).isValid ∧
        (e.run input).steps = (e'.run input).steps ∧
        ∀ address, Option.Rel (Tracker.Resembles List.Perm) ((e.run input).tree.seen? root address)
          ((e'.run input).tree.seen? root address) := by
  have hcompiles : ∀ {c c' : Chain}, c.Rearranged List.Perm c' →
      (∃ e, Mapper.standard.compile c = .ok e) → ∃ e', Mapper.standard.compile c' = .ok e' := by
    rintro c c' h ⟨e, he⟩
    obtain ⟨n, he⟩ := Mapper.compile_eq_ok.1 he
    obtain ⟨e', n', he'⟩ := Mapper.compiles_rearranged shuffles_perm h he 0
    exact ⟨e', Mapper.compile_eq_ok.2 ⟨n', he'⟩⟩
  refine ⟨⟨hcompiles h, hcompiles (h.symm fun hperm => hperm.symm)⟩, fun e e' he he' input => ?_⟩
  obtain ⟨n, he⟩ := Mapper.compile_eq_ok.1 he
  obtain ⟨n', he'⟩ := Mapper.compile_eq_ok.1 he'
  have halike := Mapper.alike_of_compileChain h he he'
  exact (halike.mimics shuffles_perm root root _ _ (ready_ofValue shuffles_perm e input)).outcome
    shuffles_perm

/-- An object without options and steps. -/
def plainObject (fields : List (String × Chain)) : Chain := .ofKind (.object fields) Registry.empty

def flagFirst : Chain :=
  plainObject [("flag", .ofKind .boolean Registry.empty), ("rest", .ofKind .any Registry.empty)]

def flagLast : Chain :=
  plainObject [("rest", .ofKind .any Registry.empty), ("flag", .ofKind .boolean Registry.empty)]

/-- An object that declares a reader before what it looks up, which is inside of another object. -/
def readerFirst : Chain := plainObject [("copy", .ofPath ⟨["inner", "flag"]⟩), ("inner", flagFirst)]

/-- The same the other way round, in both objects. -/
def readerLast : Chain := plainObject [("inner", flagLast), ("copy", .ofPath ⟨["inner", "flag"]⟩)]

theorem rearranged_reader : readerFirst.Rearranged List.Perm readerLast := by
  have hinner : flagFirst.Rearranged List.Perm flagLast :=
    .of_perm [("flag", _), ("rest", _)]
      (.cons ⟨rfl, .leaf trivial⟩ (.cons ⟨rfl, .leaf trivial⟩ .nil)) (.swap _ _ []) (by decide)
  exact .of_perm [("copy", _), ("inner", flagLast)]
    (.cons ⟨rfl, .leaf trivial⟩ (.cons ⟨rfl, hinner⟩ .nil)) (.swap _ _ []) (by decide)

theorem declaration_order_reader : readerFirst.Rearranged List.Perm readerLast ∧
    ∃ e e', Mapper.standard.compile readerFirst = .ok e ∧
      Mapper.standard.compile readerLast = .ok e' ∧
      ∀ input, (e.run input).finalValue = (e'.run input).finalValue ∧
        (e.run input).isValid = (e'.run input).isValid := by
  obtain ⟨hcompiles, hsame⟩ := declaration_order rearranged_reader
  have hfirst : ∃ e, Mapper.standard.compile readerFirst = .ok e := ⟨_, by cbv⟩
  obtain ⟨e, he⟩ := hfirst
  obtain ⟨e', he'⟩ := hcompiles.1 ⟨e, he⟩
  exact ⟨rearranged_reader, e, e', he, he',
    fun input => ⟨(hsame e e' he he' input).1, (hsame e e' he he' input).2.1⟩⟩

end Run

end Intake
