import Intake.Proofs.Run.Children
import Intake.Proofs.Run.Turns
import Intake.Proofs.Run.TwinRuns
/-!
# Runs of entities that are alike

Entities that are alike make subtrees that resemble each other, in as many steps, from where they
are ready:

    Alike R own e e' → Ready R own e i j r s → InPace R i j r s (e.process i r) (e'.process j s)

Up to the inspection of its kind an entity works on a tracker without children.  The items of a list
then go in pace one by one, the members of an object come to the same in their turns
(`Scene.level`), and objects that are put together of resembling children resemble each other.
-/

namespace Intake

open TrackerTree Run Entity

namespace Run

variable {R : List String → List String → Prop} {own : Option String} {i j : TrackerId}
  {e e' : Entity} {r₀ s₀ r s : Run}

/-! ## Before the inspection -/

/-- Two runs are in pace, and no children have been attached. -/
def InPaceBare (R : List String → List String → Prop) (i j : TrackerId) (r₀ s₀ r s : Run) : Prop :=
  InPace R i j r₀ s₀ r s ∧ Childless i r.tree ∧ Childless j s.tree

theorem Ready.agrees (hR : Shuffles R) (h : Ready R own e i j r s) :
    Agrees e.references i j (InPace R i j r s) :=
  InPace.agrees hR h.linked.1 h.linked.2 h.placed h.agreed

theorem Ready.agrees_bare (hR : Shuffles R) (h : Ready R own e i j r s) :
    Agrees e.references i j (InPaceBare R i j r s) :=
  (h.agrees hR).and_trees (fun _ _ hf h => h.update hf) fun _ _ hf h => h.update hf

/-- An entity takes a tracker over. -/
theorem InPaceBare.start (n n' : Nat) :
    Takes (InPaceBare R i j r₀ s₀) (InPaceBare R i j r₀ s₀) i j (start n) (Entity.start n') :=
  fun _ _ h => ⟨h.1.start n n', h.2.1.update (Tracker.onContent_claim n),
    h.2.2.update (Tracker.onContent_claim n')⟩

/-- Entities whose inspections keep the pace do so. -/
theorem Ready.process (hR : Shuffles R) {n n' : Nat} {source source' : Chain}
    {resolver resolver' : Option Entity} {p : Pipeline} {hooks hooks' : Hooks}
    (h : Ready R own (.mk n source resolver (.behaviour p hooks)) i j r s)
    (hprops : source'.props = source.props) (hr : Resolves source.props.default? resolver)
    (hr' : Resolves source.props.default? resolver') (hconvert : convert hooks' = convert hooks)
    (hinspect : Takes (InPaceBare R i j r s) (InPace R i j r s) i j (inspect hooks)
      (inspect hooks')) :
    InPace R i j r s ((Entity.mk n source resolver (.behaviour p hooks)).process i r)
      ((Entity.mk n' source' resolver' (.behaviour p hooks')).process j s) := by
  have hreferences : ∀ path ∈ p.references,
      path ∈ references (.mk n source resolver (.behaviour p hooks)) := by
    intro path hpath
    simp [references, mem_distinct, bodyReferences, hpath]
  have hweaken : ∀ r' s', InPaceBare R i j r s r' s' → InPace R i j r s r' s' := fun _ _ h => h.1
  have hbare : InPaceBare R i j r s r s :=
    ⟨.refl h.linked.1 h.linked.2 h.alike, h.childless.1, h.childless.2⟩
  have hreplace : replace (.behaviour p hooks') = replace (.behaviour p hooks) := rfl
  refine Takes.process (h.agrees_bare hR) hweaken hprops (fun _ hpath => hpath) InPaceBare.start
    hr hr' hreplace ?_ r s hbare
  exact Takes.behave (h.agrees_bare hR) hweaken (h.agrees hR) hreferences hconvert hinspect

/-! ## Lists -/

/-- One item. -/
theorem InPace.item (hR : Shuffles R) {items items' : Entity} (hitems : Mimics R none items items')
    (hsilent : items.references = []) (h : InPace R i j r₀ s₀ r s) (hi : i < r₀.tree.size)
    (hj : j < s₀.tree.size) (m : Nat) (v : Value) :
    InPace R i j r₀ s₀ (itemRun items i m v r) (itemRun items' j m v s) ∧
      (itemRun items i m v r).value? r.tree.size = (itemRun items' j m v s).value? s.tree.size ∧
      (itemRun items i m v r).tree.hasIssuesBelow r.tree.size =
        (itemRun items' j m v s).tree.hasIssuesBelow s.tree.size := by
  have hl := h.left.grows.linked
  have hl' := h.right.grows.linked
  have hattach := Grows.attach hl (h.left.lt hi) (toString m) (some v)
  have hattach' := Grows.attach hl' (h.right.lt hj) (toString m) (some v)
  have hget := get?_attach_size (h.left.lt hi) (toString m) (some v)
  have hget' := get?_attach_size (h.right.lt hj) (toString m) (some v)
  have hready : Ready R none items r.tree.size s.tree.size
      { r with tree := (r.tree.attach i (toString m) (some v)).2 }
      { s with tree := (s.tree.attach j (toString m) (some v)).2 } := by
    refine ⟨⟨hattach.linked, hattach'.linked⟩, ⟨⟨_, hget, rfl⟩, ⟨_, hget', rfl⟩⟩,
      .of_bare hR hget hget' rfl ⟨rfl, rfl⟩ ⟨rfl, rfl⟩, ⟨.unnamed, .unnamed⟩, fun path hpath => ?_⟩
    rw [hsilent] at hpath
    cases hpath
  have hpace := hitems _ _ _ _ hready
  obtain ⟨a, hr, hs⟩ := h.steps
  obtain ⟨b, hr', hs'⟩ := hpace.steps
  refine ⟨⟨?_, ?_, ?_, a + b, ?_, ?_⟩, hpace.alike.value?_eq, ?_⟩
  · have hgrow : Advances i r { r with tree := (r.tree.attach i (toString m) (some v)).2 } :=
      .of_grows hattach rfl
    exact (h.left.trans hgrow (.inl rfl)).trans hpace.left (.inr h.left.grows.size)
  · have hgrow : Advances j s { s with tree := (s.tree.attach j (toString m) (some v)).2 } :=
      .of_grows hattach' rfl
    exact (h.right.trans hgrow (.inl rfl)).trans hpace.right (.inr h.right.grows.size)
  · exact h.alike.attach hR hl hl' hpace.left.grows hpace.right.grows hpace.alike
  · exact hr'.trans (by rw [hr, Nat.add_assoc])
  · exact hs'.trans (by rw [hs, Nat.add_assoc])
  · exact hpace.alike.hasIssuesBelow_eq hR hpace.left.grows.linked hpace.right.grows.linked

/-! ## Objects -/

/-- Members that fail are named by both, each in its own order. -/
theorem InPace.recordMembers (hR : Shuffles R) (h : InPace R i j r₀ s₀ r s)
    {names names' : List String} (hnames : R names names') :
    InPace R i j r₀ s₀ (r.recordNames i "object/members" "fields" names)
      (s.recordNames j "object/members" "fields" names') := by
  unfold recordNames
  rw [(hR.perm hnames).isEmpty_eq]
  split
  · exact h
  · exact h.record (.members hnames)

theorem InPace.recordSame (h : InPace R i j r₀ s₀ r s) (key arg : String) (names : List String) :
    InPace R i j r₀ s₀ (r.recordNames i key arg names) (s.recordNames j key arg names) := by
  exact recordNames_agrees (fun _ => h.record (.same _)) h key arg names

/-- An object is put together alike from children that resemble each other. -/
theorem InPace.assemble (hR : Shuffles R) (h : InPace R i j r₀ s₀ r s) {names names' : List String}
    (hnames : R names names') (policy : UnknownKeys) (input : List (String × Value)) :
    InPace R i j r₀ s₀ (assemble policy names (input.filter fun m => !names.contains m.1) i r)
      (assemble policy names' (input.filter fun m => !names'.contains m.1) j s) := by
  have hsame : ∀ s, s ∈ names ↔ s ∈ names' := fun s => hR.mem_iff hnames
  have hunknown : (input.filter fun m => !names.contains m.1) =
      input.filter fun m => !names'.contains m.1 :=
    List.filter_congr fun m _ => by simp only [List.contains_eq_mem, hsame]
  -- children of one name fail both or not at all, and have the same value
  have hparts : ∀ name, (r.tree.parts i (fun _ => none) name).failing =
        (s.tree.parts j (fun _ => none) name).failing ∧
      (r.tree.parts i (fun _ => none) name).value =
        (s.tree.parts j (fun _ => none) name).value := by
    intro name
    have hchild := h.alike.child hR name
    unfold TrackerTree.parts
    generalize r.tree.child? i name = x, s.tree.child? j name = y at hchild
    cases hchild with
    | none => exact ⟨rfl, rfl⟩
    | some hcd =>
      exact ⟨hcd.hasIssuesBelow_eq hR h.left.grows.linked h.right.grows.linked, hcd.value?_eq⟩
  unfold Run.assemble
  dsimp only
  rw [failingMembers_memberChildren r.tree i fun _ => none,
    failingMembers_memberChildren s.tree j fun _ => none,
    memberValues_memberChildren r.tree i fun _ => none,
    memberValues_memberChildren s.tree j fun _ => none]
  have hfailing := hR.filter (fun name => (r.tree.parts i (fun _ => none) name).failing) hnames
  have hfilter : (names'.filter fun name => (r.tree.parts i (fun _ => none) name).failing) =
      names'.filter fun name => (s.tree.parts j (fun _ => none) name).failing :=
    List.filter_congr fun name _ => (hparts name).1
  rw [hfilter] at hfailing
  have houtput : Value.ofMembers (outputOf (r.tree.parts i fun _ => none) policy names input) =
      .ofMembers (outputOf (s.tree.parts j fun _ => none) policy names' input) :=
    outputOf_congr hsame fun name => (hparts name).2
  rw [outputOf_eq, outputOf_eq, houtput, hunknown]
  have hset := h.touch (Tracker.onContent_setValue
    (some (.ofMembers (outputOf (s.tree.parts j fun _ => none) policy names' input))))
  exact (hset.recordMembers hR hfailing).recordSame _ _ _

section

variable {members members' : List (String × Entity)} {schedule schedule' : Schedule String}
  {escaping escaping' : List Path} {input : List (String × Value)}

/-- The members of an object are attached to a tracker that has no children. -/
theorem scene_attachMembers
    (hs : schedule.Arranges own (members.map fun m => (m.1, m.2.references)) escaping)
    (hm : ∀ m ∈ members, Arranged (some m.1) m.2) (hl : r₀.tree.Linked) (ha : Advances i r₀ r)
    (hbare : Childless i r.tree) (input : List (String × Value)) :
    Scene own i members schedule escaping input r₀
      (r.mapTree (attachMembers i (members.map (·.1)) input)) := by
  have hattached : Attached i (members.map (·.1)) input r.tree _ :=
    attached_attachMembers (members.map (·.1)) ha.grows.linked hbare.lt
  refine ⟨hs, hm, hl, ha.trans (.of_grows hattached.grows rfl) (.inl rfl), r.tree, hattached,
    ha.grows.size, fun s => ?_⟩
  obtain ⟨k, hk, hchildren⟩ := hbare
  rw [child?_of_get? hk, Tracker.child?, hchildren]
  rfl

/-- When the members of two objects have come to the same, so have the objects. -/
theorem Level.inPace {r₁ s₁ r₂ s₂ : Run} (h : Level R i j r₀ s₀ r₁ s₁ r₂ s₂)
    (hpace : InPaceBare R i j r₀ s₀ r s) (hnames : R (members.map (·.1)) (members'.map (·.1)))
    (hnodup : (members.map (·.1)).Nodup ∧ (members'.map (·.1)).Nodup)
    (hr : r₁ = r.mapTree (attachMembers i (members.map (·.1)) input))
    (hs : s₁ = s.mapTree (attachMembers j (members'.map (·.1)) input)) :
    InPace R i j r₀ s₀ r₂ s₂ := by
  subst hr hs
  obtain ⟨hpace, ⟨k, hk, hchildren⟩, ⟨l, hl, hchildren'⟩⟩ := hpace
  obtain ⟨⟨a, hra, hsa⟩, b, hrb, hsb⟩ := And.intro hpace.steps h.steps
  obtain ⟨children, hget, hc⟩ := get?_attachMembers input (members.map (·.1)) hk
    (by simpa [hchildren, Table.names] using hnodup.1)
  obtain ⟨children', hget', hc'⟩ := get?_attachMembers input (members'.map (·.1)) hl
    (by simpa [hchildren', Table.names] using hnodup.2)
  replace hc : Table.names children = members.map (·.1) := by
    simpa [hchildren, Table.names] using hc
  replace hc' : Table.names children' = members'.map (·.1) := by
    simpa [hchildren', Table.names] using hc'
  have halike : Tracker.Resembles R k l := by
    obtain ⟨left, right, alike, -, -⟩ := hpace.alike
    obtain rfl := Option.some.inj (left.symm.trans hk)
    obtain rfl := Option.some.inj (right.symm.trans hl)
    exact alike
  refine ⟨h.left, h.right, .mk (h.here.1.trans hget) (h.here.2.trans hget')
    ⟨halike.value, halike.issues, ?_⟩ ?_ fun {s c d} hc hd => ?_, a + b, ?_, ?_⟩
  · show R (Table.names children) (Table.names children')
    rw [hc, hc']
    exact hnames
  · show (Table.names children).Nodup ∧ (Table.names children').Nodup
    rw [hc, hc']
    exact hnodup
  · exact h.alike ((child?_congr h.here.1 s).symm.trans hc)
      ((child?_congr h.here.2 s).symm.trans hd)
  · exact hrb.trans ((congrArg (· + b) hra).trans (Nat.add_assoc _ a b))
  · exact hsb.trans ((congrArg (· + b) hsa).trans (Nat.add_assoc _ a b))

/-- Objects whose members mimic each other are inspected in pace. -/
theorem InPaceBare.inspectObject (hR : Shuffles R)
    (hs : schedule.Arranges own (members.map fun m => (m.1, m.2.references)) escaping)
    (hs' : schedule'.Arranges own (members'.map fun m => (m.1, m.2.references)) escaping')
    (hm : ∀ m ∈ members, Arranged (some m.1) m.2) (hm' : ∀ m ∈ members', Arranged (some m.1) m.2)
    (hnames : R (members.map (·.1)) (members'.map (·.1)))
    (hl : r₀.tree.Linked ∧ s₀.tree.Linked) (hplaced : Placed own i r₀.tree ∧ Placed own j s₀.tree)
    (hescaping : ∀ path ∈ escaping, Agreed own i j r₀.tree s₀.tree path)
    (hmimics : ∀ {name member member'}, Table.get? members name = some member →
      Table.get? members' name = some member' → Mimics R (some name) member member' ∧
        ∀ path, path ∈ member.references ↔ path ∈ member'.references) (policy : UnknownKeys) :
    Takes (InPaceBare R i j r₀ s₀) (InPace R i j r₀ s₀) i j
      (inspectObject (memberStages members) schedule policy)
      (inspectObject (memberStages members') schedule' policy) := by
  intro r s hrs
  have hvalue : r.value? i = s.value? j := hrs.1.alike.value?_eq
  by_cases hobject : ∃ input, r.value? i = some (.object input)
  · obtain ⟨input, hv⟩ := hobject
    rw [inspectObject_of_object hv, inspectObject_of_object (hvalue.symm.trans hv)]
    -- the values are taken out, and the members are attached
    have hempty : InPaceBare R i j r₀ s₀ (r.setValue i none) (s.setValue j none) :=
      ⟨hrs.1.touch (Tracker.onContent_setValue none),
        hrs.2.1.update (Tracker.onContent_setValue none),
        hrs.2.2.update (Tracker.onContent_setValue none)⟩
    have hscene := scene_attachMembers hs hm hl.1 hempty.1.left hempty.2.1 input
    have hscene' := scene_attachMembers hs' hm' hl.2 hempty.1.right hempty.2.2 input
    have hlevel := hscene.level hR hscene' hnames hplaced hescaping hmimics
    have hpace := hlevel.inPace hempty hnames ⟨hs.nodup_members, hs'.nodup_members⟩ rfl rfl
    exact andThen_agrees (fun _ _ h => h.alike.hasIssues_eq) hpace (fun _ _ h => h)
      fun _ _ h => h.assemble hR hnames policy input
  · rw [inspectObject_refuses hobject, inspectObject_refuses (hvalue ▸ hobject)]
    exact hrs.1.record (.same _)

end

end Run

/-! ## The main result -/

namespace Entity

variable {R : List String → List String → Prop} {own : Option String} {e e' : Entity}

/-- Entities that are alike mimic each other. -/
theorem Alike.mimics (hR : Shuffles R) (h : Alike R own e e') : Mimics R own e e' := by
  induction h with
  | @single own n n' source source' resolver resolver' body props hr hr' hb =>
    intro i j r s h
    have hlocal : Local (fun _ => False) (references (.mk n source resolver body)) (behave body) :=
      local_behave (fun path hpath => by simp [references, mem_distinct, hpath])
        fun F hF => local_of_single hb hF
    refine Takes.process (h.agrees hR) (fun _ _ h => h) props (fun _ hpath => hpath)
      (fun n n' r s h => h.start n n') hr hr' rfl (.of_local hlocal (h.agrees hR)) r s ?_
    exact .refl h.linked.1 h.linked.2 h.alike
  | @array own n n' source source' resolver resolver' pipeline items items' props hr hr' silent hi
      ih =>
    intro i j r s h
    refine h.process hR props hr hr' rfl fun r' s' h' => ?_
    refine inspectList_agrees (InPace.agrees hR h.linked.1 h.linked.2 h.placed
      (List.forall_mem_nil _)) (fun m v r s hrs => ?_) h'.1
    exact hrs.item hR ih silent h.childless.1.lt h.childless.2.lt m v
  | @object own n n' source source' resolver resolver' pipeline members members' schedule schedule'
      policy escaping escaping' props hr hr' hs hs' names hm ih =>
    intro i j r s h
    have halike : Alike R own
        (.mk n source resolver (.behaviour pipeline (.object members schedule policy escaping)))
        (.mk n' source' resolver'
          (.behaviour pipeline (.object members' schedule' policy escaping'))) :=
      .object props hr hr' hs hs' names hm
    have harranged := halike.arranged hR
    refine h.process hR props hr hr' rfl ?_
    refine InPaceBare.inspectObject hR hs hs' harranged.1.members harranged.2.members names h.linked
      h.placed (fun path hpath => h.agreed path ?_) (fun hmember hmember' =>
        ⟨ih hmember hmember', fun path => (hm hmember hmember').mem_references_iff hR⟩) policy
    simp [references, mem_distinct, bodyReferences, hookReferences, hpath]

end Entity

end Intake
