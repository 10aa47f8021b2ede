import Intake.Proofs.Run.Siblings
import Intake.Proofs.Schedule.Failure
/-!
# What the items of a list read of themselves

The items of a list are objects without a name of their own.  A member of an item that looks up
another one through the list, by the name of the list and the index of the item, asks for nothing
in the item: the path leaves it, and where the list is a member it is taken for the list's own
affair.  So nothing orders the two, and the order of the item decides what is read
(`item_reads`):

    keys = before ++ x :: after → value = if y ∈ before then … the final value … else … the input …

An object that is a member is different: what comes back in through its name is ordered inside.
-/

namespace Intake

namespace Run

open Entity

/-! ## The main result -/

/-- In what the standard mapper makes of an object with a list `list` of objects, all items run
their members in one order, which is that of declaration if no member begins a path with the name
of another.  A member `x` of an item that finds another member `y` of it, on whatever path, reads
the final value of `y` if `y` stands before it in that order, and else what the input has there. -/
theorem item_reads {c array item : Chain} {fields inner : List (String × Chain)} {list : String}
    {e : Entity} (hc : c.Built Registry.standard)
    (hobject : c.kind = .object fields) (harray : Table.get? fields list = some array)
    (hitems : array.kind = .array (some item)) (hitem : item.kind = .object inner)
    (h : Mapper.standard.compile c = .ok e) :
    ∃ keys, keys.Perm (inner.map (·.1)) ∧
      ((∀ i n member, e.at? [list, i, n] = some member → ∀ path ∈ member.references,
          ∀ first, path.first? = some first → first = n ∨ first ∉ inner.map (·.1)) →
        keys = inner.map (·.1)) ∧
      ∀ (input : Option Value) (id found : TrackerId) (path : Path) (value : Option Value)
        (i x y : String) (before after : List String),
        .lookedUp id path (some found) value ∈ (e.run input).trace → x ≠ y →
        (e.run input).tree.pathOf id = [list, i, x] →
        (e.run input).tree.pathOf found = [list, i, y] → keys = before ++ x :: after →
          value = if y ∈ before then (e.run input).tree.value? found
            else input.bind (·.at? [list, i, y]) := by
  have hstandard := standard_of_built hc h
  have harranged := Mapper.compile_arranged h
  obtain ⟨rfl, hfits⟩ := Mapper.compile_fits h
  obtain ⟨entity, hat, rfl, hentity⟩ := harranged.exists_item hfits hobject harray hitems
  obtain ⟨members, schedule, escaping, hs, hchild, hnames, ha⟩ :=
    hentity.of_object (hfits _ _ (hat "")) hitem
  obtain ⟨keys, hcached⟩ := ha.kept
  refine ⟨keys, ?_, fun hfree => ?_, ?_⟩
  · have hperm := (ha.sound.cached keys hcached).perm
    rwa [ha.names_members, hnames] at hperm
  · have hdeclared := ha.declared fun p n => ?_
    · rw [hcached, Table.names_map, hnames] at hdeclared
      exact Option.some.inj hdeclared
    · intro hasks
      obtain ⟨m, hm, rfl, path, hpath, hfirst, hne, hmem⟩ := hasks.of_unnamed
      obtain ⟨⟨name, member⟩, hm', rfl⟩ := List.mem_map.1 hm
      have hmember : e.at? [list, "", name] = some member := by
        rw [show [list, "", name] = [list, ""] ++ [name] from rfl, at?_append (hat ""), hchild,
          Table.get?_of_mem ha.nodup_members hm']
      rw [Table.names_map, hnames] at hmem
      exact (hfree "" name member hmember path hpath p hfirst).elim hne fun hnot => hnot hmem
  · intro input id found path value i x y before after hevent hne hid hfound hkeys
    have hobject' : (e.at? [list, i]).bind schedule? = some schedule := by
      rw [hat, Option.bind_some, hs]
    exact run_reads harranged hstandard hobject' hcached input hevent hne hid hfound hkeys

/-! ## A list of flags -/

def flagSchema : Schema := { registry := Registry.standard }

/-- A truth value that may be spelled. -/
def flag : Chain :=
  .mk .boolean {} [⟨.format "boolean/parse" Processor.parseTruth, [], true⟩] Registry.standard

theorem parseBoolean_flag : flagSchema.boolean.parseBoolean = .ok flag := rfl

/-- Its member `x` copies `y`, through the list around it. -/
def row : Chain :=
  (flagSchema.object.field "x" (flagSchema.reference ⟨["A", "0", "y"]⟩)).field "y" flag

/-- An object with a list of rows. -/
def rows : Chain := flagSchema.object.field "A" (flagSchema.array.items row)

theorem built_rows : rows.Built Registry.standard := by
  have hrow : row.Built Registry.standard := by
    refine .field "y" (.field "x" (.configure _ (.start fun _ => rfl)) (.start fun _ => rfl)) ?_
    exact .addStep (.start fun _ => rfl) parseBoolean_flag
  exact .field "A" (.configure _ (.start fun _ => rfl)) (.items (.start fun _ => rfl) hrow)

/-- What the members of a row compile to. -/
def rowMembers : List (String × Entity) :=
  [("x", .mk 3 (flagSchema.reference ⟨["A", "0", "y"]⟩) none
      (.reference ⟨["A", "0", "y"]⟩ ⟨none, []⟩)),
    ("y", .mk 4 flag none (.behaviour (.ofSteps flag.pipeline) (.check .boolean)))]

/-- What the rows compile to: nothing orders `x` and `y`. -/
def rowReader : Entity :=
  .mk 0 rows none (.behaviour ⟨none, []⟩ (.object
    [("A", .mk 1 (flagSchema.array.items row) none (.behaviour ⟨none, []⟩ (.array (some
      (.mk 2 row none (.behaviour ⟨none, []⟩ (.object rowMembers
        ⟨[("x", some "x"), ("y", some "y")], [], some ["x", "y"]⟩ .strip
        [⟨["A", "0", "y"]⟩])))))))]
    ⟨[("A", some "A")], [], some ["A"]⟩ .strip []))

theorem compile_rows : Mapper.standard.compile rows = .ok rowReader := by cbv

/-- One row, whose flag is spelled as a number. -/
def numbered : Option Value :=
  some (.object [("A", .list [.object [("y", .num (.int 1))]])])

theorem pathOf_numbered : (rowReader.run numbered).tree.pathOf 3 = ["A", "0", "x"] ∧
    (rowReader.run numbered).tree.pathOf 4 = ["A", "0", "y"] := by decide +kernel

/-- The member `x` of the row finds a number in `y`. -/
def findsNumber : Event → Bool
  | .lookedUp 3 path (some 4) (some (.num _)) => path == ⟨["A", "0", "y"]⟩
  | _ => false

theorem exists_finds_numbered : ∃ n, .lookedUp 3 ⟨["A", "0", "y"]⟩ (some 4) (some (.num n)) ∈
    (rowReader.run numbered).trace := by
  have hfinds : (rowReader.run numbered).trace.any findsNumber = true := by decide +kernel
  obtain ⟨event, hmem, hevent⟩ := List.any_eq_true.1 hfinds
  unfold findsNumber at hevent
  split at hevent
  · next path n =>
    rw [beq_iff_eq] at hevent
    exact ⟨n, hevent ▸ hmem⟩
  · cases hevent

/-- What is declared first runs first, so `x` reads what the input has for `y`. -/
theorem item_reads_rows :
    rows.Built Registry.standard ∧ Mapper.standard.compile rows = .ok rowReader ∧
      ∃ value, .lookedUp 3 ⟨["A", "0", "y"]⟩ (some 4) value ∈ (rowReader.run numbered).trace ∧
        value = numbered.bind (·.at? ["A", "0", "y"]) := by
  have harray : Table.get? [("A", flagSchema.array.items row)] "A" =
    some (flagSchema.array.items row) := rfl
  have hitem : row.kind =
    .object [("x", flagSchema.reference ⟨["A", "0", "y"]⟩), ("y", flag)] := rfl
  obtain ⟨keys, -, hdeclared, hreads⟩ := item_reads built_rows (show rows.kind = .object _ from rfl)
    harray rfl hitem compile_rows
  obtain ⟨n, hmem⟩ := exists_finds_numbered
  have hkeys : keys = ["x", "y"] := by
    refine hdeclared fun i name member hmember path hpath first hfirst => .inr ?_
    have hmember : (Table.get? rowMembers name).bind some = some member := hmember
    rw [Option.bind_fun_some] at hmember
    have hpaths : ∀ m ∈ rowMembers, ∀ path ∈ m.2.references, path.first? = some "A" := by decide
    have hlist : path.first? = some "A" := hpaths _ (Table.mem_of_get? hmember) path hpath
    obtain rfl := Option.some.inj (hlist.symm.trans hfirst)
    decide
  refine ⟨built_rows, compile_rows, _, hmem, ?_⟩
  have hvalue := hreads numbered 3 4 _ _ "0" "x" "y" [] ["y"] hmem (by decide) pathOf_numbered.1
    pathOf_numbered.2 hkeys
  rwa [if_neg List.not_mem_nil] at hvalue

/-- The rows are compiled, and yet what `x` reads is not the value that `y` has in the end. -/
theorem rows_misread :
    rows.Built Registry.standard ∧ Mapper.standard.compile rows = .ok rowReader ∧
      ∃ value, .lookedUp 3 ⟨["A", "0", "y"]⟩ (some 4) value ∈ (rowReader.run numbered).trace ∧
        (rowReader.run numbered).tree.pathOf 3 = ["A", "0", "x"] ∧
        (rowReader.run numbered).tree.pathOf 4 = ["A", "0", "y"] ∧
        value ≠ (rowReader.run numbered).tree.value? 4 := by
  obtain ⟨n, hmem⟩ := exists_finds_numbered
  refine ⟨built_rows, compile_rows, _, hmem, pathOf_numbered.1, pathOf_numbered.2, fun he => ?_⟩
  have hfinal : ((rowReader.run numbered).tree.value? 4).any TypeCheck.boolean.accepts = true := by
    decide +kernel
  rw [← he] at hfinal
  cases hfinal

end Run

end Intake
