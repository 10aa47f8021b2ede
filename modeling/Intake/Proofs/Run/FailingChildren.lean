import Intake.Outcome
import Intake.Proofs.Run.Children
import Intake.Proofs.Entity.Made
/-!
# Issues that speak for children

After a run of a standard entity, the tracker of an object names exactly the members with issues
on them or below, in the order of declaration, and the tracker of a list names exactly the indexes
of such items (`failing_children`).  So issues anywhere show at the root:

    (e.run input).isValid ↔ (e.run input).rootIssues = []

Both are read off what the tree tells: a tracker was made with the children that are there in the
end, and no step before or after has spoken for them.
-/

namespace Intake

/-! ## One tracker -/

/-- The tracker of an object speaks for its members. -/
structure NamesMembers (t : TrackerTree) (id : TrackerId) (k : Tracker) (declared : List String) :
    Prop where
  children : ∀ s ∈ Table.names k.children, s ∈ declared
  named : k.issues.filter (·.key == "object/members") = naming "object/members" "fields"
    ((declared.filter fun name => (t.child? id name).any t.hasIssuesBelow).map .str)

/-- The tracker of a list speaks for its items. -/
structure NamesItems (t : TrackerTree) (id : TrackerId) (k : Tracker) : Prop where
  children : Table.names k.children = (List.range k.children.length).map toString
  named : k.issues.filter (·.key == "array/items") = naming "array/items" "indexes"
    (((List.range k.children.length).filter fun i =>
      (t.child? id (toString i)).any t.hasIssuesBelow).map .ofNat)

section

variable {t : TrackerTree} {e : Entity} {k l : Tracker} {x : TrackerId}
  {raw : String → Option Value}

/-- A tracker that speaks with one issue has no other of that key. -/
theorem filter_of_spoken {key arg : String} {values : List Value}
    (hkey : Issue.speaksFor key = true) (h : l.spoken = naming key arg values) :
    l.issues.filter (·.key == key) = naming key arg values := by
  have hboth : l.issues.filter (·.key == key) = l.spoken.filter (·.key == key) := by
    rw [Tracker.spoken, List.filter_filter]
    refine List.filter_congr fun issue _ => ?_
    cases hissue : issue.key == key with
    | false => rfl
    | true =>
      rw [eq_of_beq hissue, hkey]
      rfl
  rw [hboth, h]
  unfold naming
  split
  · rfl
  · simp [Issue.of]

/-- Without children there are no issues below. -/
theorem any_child_of_bare (get : t.get? x = some l) (hchildren : l.children = []) (s : String) :
    (t.child? x s).any t.hasIssuesBelow = false := by
  rw [TrackerTree.child?_of_get? get, Tracker.child?, hchildren]
  rfl

/-- A tracker that has not reached its children speaks for none. -/
theorem Unreached.spoken {type? : Option (Value → Bool)} (h : Unreached type? k l)
    (key arg : String) : l.spoken = naming key arg [] :=
  spoken_of_quiet h.quiet

theorem MadeLeaf.spoken {type? : Option (Value → Bool)} (h : MadeLeaf type? l)
    (key arg : String) : l.spoken = naming key arg [] :=
  spoken_of_quiet h.quiet

theorem Entity.Standard.namesMembers (h : e.Standard) {fields : List (String × Chain)}
    (hkind : e.source.kind = .object fields) (hk : k.Untouched) (get : t.get? x = some l)
    (made : e.Makes (t.parts x raw) k l) : NamesMembers t x l (fields.map (·.1)) := by
  have hmade := h.makes hk made
  rw [hkind] at hmade
  rcases hmade with hunreached | hmade
  · have hbare := any_child_of_bare get hunreached.children
    refine ⟨by simp [hunreached.children, Table.names], ?_⟩
    rw [filter_of_spoken (by decide) (hunreached.spoken "object/members" "fields")]
    simp [hbare]
  · have hmade : MadeObject (t.parts x raw) (fields.map (·.1)) k l := hmade
    exact ⟨fun s hs => hmade.children ▸ hs, filter_of_spoken (by decide) hmade.spoken⟩

theorem Entity.Standard.namesItems (h : e.Standard) {items : Option Chain}
    (hkind : e.source.kind = .array items) (hk : k.Untouched)
    (made : e.Makes (t.parts x raw) k l) : NamesItems t x l := by
  have hleaf : l.children = [] → l.spoken = naming "array/items" "indexes" [] →
      NamesItems t x l := by
    intro hchildren hspoken
    refine ⟨by simp [hchildren, Table.names], ?_⟩
    rw [filter_of_spoken (by decide) hspoken, hchildren]
    rfl
  have hmade := h.makes hk made
  rw [hkind] at hmade
  rcases hmade with hunreached | hmade
  · exact hleaf hunreached.children (hunreached.spoken _ _)
  · cases items with
    | none =>
      have hmade : MadeLeaf (Kind.array none).typeTest? l := hmade
      exact hleaf hmade.children (hmade.spoken _ _)
    | some items =>
      obtain ⟨n, hmade⟩ : ∃ n, MadeList (t.parts x raw) n k l := hmade
      have hlength : l.children.length = n := by
        rw [← List.length_map (f := (·.1)), show l.children.map (·.1) = _ from hmade.children,
          List.length_map, List.length_range]
      refine ⟨hlength.symm ▸ hmade.children, ?_⟩
      rw [hlength]
      exact filter_of_spoken (by decide) hmade.spoken

/-- Whoever has a failing child speaks for it. -/
theorem Entity.Standard.hasIssues_of_child (h : e.Standard) (hk : k.Untouched)
    (get : t.get? x = some l) (made : e.Makes (t.parts x raw) k l) {s : String} {c : TrackerId}
    (hc : t.child? x s = some c) (hbelow : t.hasIssuesBelow c = true) : l.hasIssues = true := by
  have hs : s ∈ Table.names l.children := by
    rw [TrackerTree.child?_of_get? get] at hc
    exact Table.mem_names_of_get? hc
  have hfailing : (t.parts x raw s).failing = true := by
    rw [TrackerTree.parts, hc]
    exact hbelow
  have hspoken : ∀ key arg values, values ≠ [] → l.spoken = naming key arg values →
      l.hasIssues = true := by
    intro key arg values hne hspoken
    refine Tracker.hasIssues_iff.2 fun hnil => ?_
    rw [Tracker.spoken, hnil, naming, if_neg (by simpa using hne)] at hspoken
    cases hspoken
  have hleaf : l.children = [] → l.hasIssues = true := by
    intro hchildren
    rw [hchildren] at hs
    cases hs
  rcases h.makes hk made with hunreached | hmade
  · exact hleaf hunreached.children
  · unfold Made at hmade
    split at hmade
    · refine hspoken _ _ _ (List.ne_nil_of_mem (List.mem_map_of_mem (a := s) ?_)) hmade.spoken
      exact List.mem_filter.2 ⟨hmade.children ▸ hs, hfailing⟩
    · obtain ⟨n, hmade⟩ := hmade
      rw [hmade.children] at hs
      obtain ⟨i, hi, rfl⟩ := List.mem_map.1 hs
      refine hspoken _ _ _ (List.ne_nil_of_mem (List.mem_map_of_mem (a := i) ?_)) hmade.spoken
      exact List.mem_filter.2 ⟨hi, hfailing⟩
    · exact hleaf hmade.children

/-- There are issues below a tracker only if it has issues itself. -/
theorem Told.hasIssuesBelow_eq (hl : t.Linked) (hx : Told t e k x) (h : e.Standard)
    (hk : k.Untouched) : t.hasIssuesBelow x = t.hasIssues x := by
  cases hx with
  | @mk e k l x raw get made nodup known inner =>
    have hown : t.hasIssues x = l.hasIssues := by
      rw [TrackerTree.hasIssues, get]
      rfl
    rw [hown, Bool.eq_iff_iff, TrackerTree.hasIssuesBelow_iff hl get nodup]
    constructor
    · rintro (hissues | ⟨s, c, hc, hbelow⟩)
      · exact hissues
      · exact h.hasIssues_of_child hk get made hc hbelow
    · exact .inl

end

/-! ## The main result -/

namespace Run

/-- In every run of what the standard mapper makes of a chain over the standard registry, objects
and lists name exactly the children with issues, and the input is valid if the root has none. -/
theorem failing_children {c : Chain} (hc : c.Built Registry.standard) {e : Entity}
    (h : Mapper.standard.compile c = .ok e) (input : Option Value) :
    (∀ id k, (e.run input).tree.get? id = some k → ∃ inner,
      e.at? ((e.run input).tree.pathOf id) = some inner ∧ k.entity = some inner.id ∧
      c.at? ((e.run input).tree.pathOf id) = some inner.source ∧
      (∀ fields, inner.source.kind = .object fields →
        NamesMembers (e.run input).tree id k (fields.map (·.1))) ∧
      (∀ items, inner.source.kind = .array items → NamesItems (e.run input).tree id k)) ∧
    ((e.run input).isValid = true ↔ (e.run input).rootIssues = []) := by
  have harranged := Mapper.compile_arranged h
  have hstandard := Entity.standard_of_built hc h
  obtain ⟨hsource, hfits⟩ := Mapper.compile_fits h
  obtain ⟨hl, htold, -⟩ := Entity.run_told harranged input
  refine ⟨fun id k hk => ?_, ?_⟩
  · obtain ⟨inner, k₀, hinner, hk₀, htold, -⟩ :=
      Entity.run_tracker harranged input (TrackerTree.lt_size_of_get? hk)
    have hinner' := hstandard _ _ hinner
    obtain ⟨raw, made⟩ := htold.makes hk
    exact ⟨inner, hinner, htold.owner hk₀ hk, hsource ▸ hfits.source_at? hinner,
      fun fields hkind => hinner'.namesMembers hkind hk₀ hk made,
      fun items hkind => hinner'.namesItems hkind hk₀ made⟩
  · have hbelow := htold.hasIssuesBelow_eq hl (hstandard [] e rfl) ⟨rfl, rfl, rfl⟩
    unfold isValid rootIssues
    rw [hbelow, TrackerTree.hasIssues]
    cases (e.run input).tree.get? TrackerTree.root with
    | none => simp
    | some k => simp [Tracker.hasIssues]

/-- A schema of the standard processors. -/
def scoreSchema : Schema := { registry := Registry.standard }

/-- An object with a list of numbers. -/
def scoring : Chain :=
  scoreSchema.object.field "scores" (scoreSchema.array.items scoreSchema.number.required)

theorem built_scoring : scoring.Built Registry.standard := by
  refine .field "scores" (.configure _ (.start fun _ => rfl)) (.items (.start fun _ => rfl) ?_)
  exact .configure _ (.start fun _ => rfl)

/-- What it compiles to. -/
def scorer : Entity :=
  .mk 0 scoring none (.behaviour ⟨none, []⟩ (.object
    [("scores", .mk 1 (scoreSchema.array.items scoreSchema.number.required) none
      (.behaviour ⟨none, []⟩ (.array (some
        (.mk 2 scoreSchema.number.required none (.behaviour ⟨none, []⟩ (.check .number)))))))]
    ⟨[("scores", some "scores")], [], some ["scores"]⟩ .strip []))

theorem compile_scoring : Mapper.standard.compile scoring = .ok scorer := by cbv

/-- A number and a text, which the list has to speak for. -/
def scores : Option Value := some (.object [("scores", .list [.num (.int 1), .str "high"])])

theorem failing_children_scores :
    scoring.Built Registry.standard ∧ Mapper.standard.compile scoring = .ok scorer ∧
    (∃ k, (scorer.run scores).tree.get? 0 = some k ∧
      NamesMembers (scorer.run scores).tree 0 k ["scores"]) ∧
    (∃ k, (scorer.run scores).tree.get? 1 = some k ∧ NamesItems (scorer.run scores).tree 1 k) ∧
    ((scorer.run scores).isValid = true ↔ (scorer.run scores).rootIssues = []) := by
  obtain ⟨hall, hvalid⟩ := failing_children built_scoring compile_scoring scores
  have hsize : (scorer.run scores).tree.size = 4 := by decide +kernel
  have hroot : (scorer.run scores).tree.pathOf 0 = [] := by decide +kernel
  have hlist : (scorer.run scores).tree.pathOf 1 = ["scores"] := by decide +kernel
  refine ⟨built_scoring, compile_scoring, ?_, ?_, hvalid⟩
  · obtain ⟨k, hk⟩ := TrackerTree.exists_get? (show 0 < (scorer.run scores).tree.size by omega)
    obtain ⟨inner, hinner, -, -, hmembers, -⟩ := hall 0 k hk
    rw [hroot] at hinner
    obtain rfl := Option.some.inj hinner
    exact ⟨k, hk, hmembers _ rfl⟩
  · obtain ⟨k, hk⟩ := TrackerTree.exists_get? (show 1 < (scorer.run scores).tree.size by omega)
    obtain ⟨inner, hinner, -, -, -, hitems⟩ := hall 1 k hk
    rw [hlist] at hinner
    obtain rfl := Option.some.inj hinner
    exact ⟨k, hk, hitems _ rfl⟩

end Run

end Intake
