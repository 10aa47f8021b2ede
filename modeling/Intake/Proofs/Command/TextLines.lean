import Intake.Command.Check
import Intake.Proofs.Catalogue.Coverage
import Intake.Proofs.Document.Built
import Intake.Proofs.Path
import Intake.Proofs.Run.IssuePaths
/-!
# Lines of a checked input

As text, an invalid outcome is shown in one line for each issue, each line ended by a line break.
Nothing of the path of an issue or of its arguments is quoted, so the breaks in them stand in the
output as well:

    splitAt '\n' output = (every rendered issue, split at '\n') ++ [[]]

The lines of the output are the rendered issues exactly if no issue carries a break into its
line (`Catalogue.Carries`): in a name on its path, or in an argument that its template names.
-/

namespace Intake

namespace Catalogue

/-- The character stands in the path of an issue, or in the text of an argument that the template
of the issue names. -/
def Carries (c : Catalogue) (b : Char) (x : LocatedIssue) : Prop :=
  b ∈ x.path.toList ∨ ∃ template, Table.get? c.messages x.issue.key = some template ∧
    ∃ name ∈ Template.names template, ∃ v, Value.lookup? name x.issue.args = some v ∧
      b ∈ (messageText v).toList

variable {c : Catalogue} {b : Char}

/-- A character that no template has comes into a message with an argument. -/
theorem mem_render_iff (hplain : ∀ m ∈ c.messages, b ∉ m.2.toList) {issue : Issue}
    (hkey : b ∉ issue.key.toList) :
    b ∈ (c.render issue).toList ↔ ∃ template, Table.get? c.messages issue.key = some template ∧
      ∃ name ∈ Template.names template, ∃ v, Value.lookup? name issue.args = some v ∧
        b ∈ (messageText v).toList := by
  unfold render
  cases htemplate : Table.get? c.messages issue.key with
  | none => simpa using hkey
  | some template =>
    have hb : b ∉ template.toList := hplain _ (Table.mem_of_get? htemplate)
    dsimp only
    rw [Template.mem_fill_iff hb]
    simp

/-- A character of a line that is neither in a template nor between path and message. -/
theorem mem_renderLocated_iff (hplain : ∀ m ∈ c.messages, b ∉ m.2.toList) {x : LocatedIssue}
    (hkey : b ∉ x.issue.key.toList) (hvalue : b ∉ "value".toList) (hcolon : b ∉ ": ".toList) :
    b ∈ (c.renderLocated x).toList ↔ c.Carries b x := by
  rw [renderLocated_eq, String.toList_append, String.toList_append, List.mem_append,
    List.mem_append, mem_render_iff hplain hkey, Carries, or_iff_left hcolon]
  refine or_congr_left ?_
  split
  · next hempty =>
    rw [hempty]
    exact iff_of_false hvalue List.not_mem_nil
  · exact Iff.rfl

end Catalogue

/-- No issue over the standard registry has a line break in its key. -/
theorem Catalogue.Covers.unbroken {issue : Issue} (h : Catalogue.standard.Covers issue) :
    '\n' ∉ issue.key.toList := by
  have hall : ∀ m ∈ Catalogue.standard.messages, '\n' ∉ m.1.toList := by decide +kernel
  obtain ⟨template, htemplate, -⟩ := h
  exact hall _ (Table.mem_of_get? htemplate)

namespace Command

open Intake.Path (splitAt)

theorem toList_lines (texts : List String) :
    (lines texts).toList = (texts.map String.toList).flatMap (· ++ ['\n']) := by
  rw [lines, String.toList_join, List.flatMap_map, List.flatMap_map]
  simp

/-- What an invalid outcome is shown as. -/
theorem render_invalid (c : Catalogue) {r : Report} (h : r.valid = false) :
    (render c .text r).output = lines (r.issues.map c.renderLocated) := by
  show lines (if r.valid then [valueText r.value] else r.issues.map c.renderLocated) = _
  rw [h, if_neg Bool.false_ne_true]

/-- The text of an invalid outcome is the rendered issues, each with a line break, and it has
exactly these lines if no issue carries a break. -/
theorem text_lines {d : SchemaDocument} {chain : Chain} (hd : build d = .ok chain) {e : Entity}
    (h : Mapper.standard.compile chain = .ok e) (input : Value) {c : Catalogue}
    (hplain : ∀ m ∈ c.messages, '\n' ∉ m.2.toList)
    (hinvalid : (e.run (some input)).isValid = false) :
    splitAt '\n' (render c .text (e.run (some input)).report).output.toList =
      ((e.run (some input)).allIssues.map fun x => (c.renderLocated x).toList).flatMap
        (splitAt '\n') ++ [[]] ∧
    (splitAt '\n' (render c .text (e.run (some input)).report).output.toList =
      ((e.run (some input)).allIssues.map fun x => (c.renderLocated x).toList) ++ [[]] ↔
        ∀ x ∈ (e.run (some input)).allIssues, ¬ c.Carries '\n' x) := by
  have hbuilt : chain.Built Registry.standard :=
    SchemaDocument.built_of_build (mapError_eq_ok.1 hd)
  have hsplit : splitAt '\n' (render c .text (e.run (some input)).report).output.toList =
      ((e.run (some input)).allIssues.map fun x => (c.renderLocated x).toList).flatMap
        (splitAt '\n') ++ [[]] := by
    rw [render_invalid c hinvalid, toList_lines, Path.splitAt_lines, List.map_map]
    rfl
  refine ⟨hsplit, ?_⟩
  rw [hsplit, List.append_left_inj, Path.flatMap_splitAt_eq_iff, List.forall_mem_map]
  refine forall₂_congr fun x hx => not_congr ?_
  exact Catalogue.mem_renderLocated_iff hplain (Run.covers_of_mem hbuilt h hx).unbroken
    (by decide) (by decide)

/-! ## A key with a line break -/

/-- An object that accepts no keys. -/
def closedDocument : SchemaDocument :=
  { schema := .mk "object" false false none none [] none [] (some .forbid) none none }

def closedChain : Chain := .mk (.object []) { unknownKeys := .forbid } [] Registry.standard

def closedEntity : Entity :=
  .mk 0 closedChain none (.behaviour ⟨none, []⟩ (.object [] ⟨[], [], some []⟩ .forbid []))

theorem build_closed : build closedDocument = .ok closedChain := rfl

theorem compile_closed : Mapper.standard.compile closedChain = .ok closedEntity := by cbv

/-- An object with one key. -/
def keyed (key : String) : Value := .object [(key, .bool true)]

theorem unbroken_standard : ∀ m ∈ Catalogue.standard.messages, '\n' ∉ m.2.toList := by
  decide +kernel

theorem text_lines_closed :
    build closedDocument = .ok closedChain ∧
    Mapper.standard.compile closedChain = .ok closedEntity ∧
    (∀ m ∈ Catalogue.standard.messages, '\n' ∉ m.2.toList) ∧
    (closedEntity.run (some (keyed "a"))).isValid = false ∧
    splitAt '\n' (render .standard .text (closedEntity.run (some (keyed "a"))).report).output.toList =
      ["value: has unknown keys: a".toList, []] ∧
    ∀ x ∈ (closedEntity.run (some (keyed "a"))).allIssues, ¬ Catalogue.standard.Carries '\n' x := by
  have hinvalid : (closedEntity.run (some (keyed "a"))).isValid = false := by decide +kernel
  have hlines : (closedEntity.run (some (keyed "a"))).allIssues.map
      (fun x => (Catalogue.standard.renderLocated x).toList) =
        ["value: has unknown keys: a".toList] := by
    decide +kernel
  obtain ⟨hsplit, hiff⟩ := text_lines build_closed compile_closed (keyed "a") unbroken_standard
    hinvalid
  rw [hlines] at hsplit hiff
  have hone := hsplit.trans (show _ = ["value: has unknown keys: a".toList, []] by decide +kernel)
  exact ⟨build_closed, compile_closed, unbroken_standard, hinvalid, hone, hiff.1 hone⟩

/-- One issue, and the second of its two lines looks like an issue of a member that there is
not. -/
theorem text_line_forged :
    build closedDocument = .ok closedChain ∧
    Mapper.standard.compile closedChain = .ok closedEntity ∧
    (∀ m ∈ Catalogue.standard.messages, '\n' ∉ m.2.toList) ∧
    (closedEntity.run (some (keyed "a\nb: is required"))).isValid = false ∧
    (closedEntity.run (some (keyed "a\nb: is required"))).allIssues.length = 1 ∧
    splitAt '\n' (render .standard .text
        (closedEntity.run (some (keyed "a\nb: is required"))).report).output.toList =
      ["value: has unknown keys: a".toList, "b: is required".toList, []] :=
  ⟨build_closed, compile_closed, unbroken_standard, by decide +kernel, by decide +kernel,
    by decide +kernel⟩

end Command

end Intake
