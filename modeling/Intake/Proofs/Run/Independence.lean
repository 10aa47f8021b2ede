import Mathlib
import Intake.Proofs.Run.TwinRuns
/-!
# Independent members

The main result, for every object without a format step that compiles, and inputs that differ at
one key `m` only:

    name ≠ m → ¬ TransGen (Joins schedule.edges) m name → ∀ below,
      (e.run (some (.object a))).tree.shown? (name :: below) =
        (e.run (some (.object b))).tree.shown? (name :: below)

The tainted names are those `Downstream` of `m`.  When the members have been attached, the two
trees are twins (`Attached.twin`).  The members then run in one order in both: a tainted
one works on trackers without a twin, and any other is mirrored (`runSchedule_twin`).  What the
object does afterwards it does to its own tracker (`run_rootOnly`), which is no part of what is
compared.
-/

namespace Intake

/-! ## What is seen of a tracker -/

/-- What there is to see of a tracker, its number apart: what it carries, and the segments of its
children. -/
structure Shown where
  value : Option Value
  entity : Option Nat
  issues : List Issue
  children : List String

def Tracker.shown (k : Tracker) : Shown := ⟨k.value, k.entity, k.issues, Table.names k.children⟩

namespace TrackerTree

/-- What is seen at an address below the root, if there is a tracker. -/
def shown? (t : TrackerTree) (address : List String) : Option Shown :=
  ((t.follow root address).bind t.get?).map Tracker.shown

variable {tainted : String → Prop} {ρ : TrackerId → TrackerId → Prop} {t t' t'' u : TrackerTree}

theorem Alike.shown_eq {i j : TrackerId} {k l : Tracker} (h : Alike ρ i j k l) :
    k.shown = l.shown := by
  have hnames : Table.names k.children = Table.names l.children := by
    have hchildren := h.children
    generalize k.children = x, l.children = y at hchildren
    induction hchildren with
    | nil => rfl
    | cons hab _ ih =>
      unfold Table.names at ih ⊢
      rw [List.map_cons, List.map_cons, hab.1, ih]
  rw [Tracker.shown, Tracker.shown, h.content.value, h.content.entity, h.content.issues, hnames]

/-- Below a name that is not tainted, twin trees show the same. -/
theorem Twin.shown?_eq (h : Twin tainted ρ t u) {name : String} (hname : ¬ tainted name)
    (below : List String) : t.shown? (name :: below) = u.shown? (name :: below) := by
  have hfollow : Option.Rel ρ (t.follow root (name :: below)) (u.follow root (name :: below)) := by
    rw [follow_cons, follow_cons]
    exact bind_rel (h.clean name hname) fun _ _ hab => h.follow_rel hab below
  unfold shown?
  rcases rel_cases hfollow with ⟨hi, hj⟩ | ⟨i, j, hi, hj, hij⟩
  · rw [hi, hj]
    rfl
  · obtain ⟨k, l, hk, hl, halike⟩ := h.alike hij
    rw [hi, hj, Option.bind_some, Option.bind_some, hk, hl, Option.map_some, Option.map_some,
      halike.shown_eq]

/-! ## Work on the root -/

/-- Nothing but what the root carries has changed. -/
structure RootOnly (t t' : TrackerTree) : Prop where
  linked : t'.Linked
  frame : ∀ {x}, x ≠ root → t'.get? x = t.get? x
  child : ∀ s, t'.child? root s = t.child? root s

theorem RootOnly.refl (h : t.Linked) : RootOnly t t :=
  ⟨h, fun _ => rfl, fun _ => rfl⟩

theorem RootOnly.update (h : RootOnly t t') {f : Tracker → Tracker} (hf : Tracker.OnContent f) :
    RootOnly t (t'.update root f) := by
  refine ⟨(Grows.update h.linked root hf).linked, fun hx => ?_, fun s => ?_⟩
  · rw [get?_update_of_ne hx, h.frame hx]
  · rw [← h.child s]
    unfold child?
    rw [get?_update_self]
    cases t'.get? root with
    | none => rfl
    | some k => simp [Tracker.child?, (hf.links k).2.2]

theorem Twin.rootOnly {u' : TrackerTree} (h : Twin tainted ρ t u) (ht : RootOnly t t')
    (hu : RootOnly u u') : Twin tainted ρ t' u' :=
  h.frame ⟨ht.linked, hu.linked⟩ (fun s => ⟨ht.child s, hu.child s⟩)
    fun hij => ⟨ht.frame (h.inner hij).1, hu.frame (h.inner hij).2⟩

end TrackerTree

namespace Run

open Entity TrackerTree Relation

/-! ## Members in step -/

/-- The children that two trees have attached to their roots under the names that are not
tainted. -/
def Matching (tainted : String → Prop) (names : List String) (t u : TrackerTree)
    (i j : TrackerId) : Prop :=
  ∃ name ∈ names, ¬ tainted name ∧ t.child? root name = some i ∧ u.child? root name = some j

section Members

variable {tainted : String → Prop} {names : List String} {a b : List (String × Value)}
  {members : List (String × Entity)} {schedule : Schedule String} {escaping : List Path}
  {r₀ r₁ s₀ s₁ : Run}

/-- Inputs that agree where nothing is tainted give twin trees. -/
theorem Attached.twin {t u t₁ u₁ : TrackerTree} (ht : Attached root names a t t₁)
    (hu : Attached root names b u u₁)
    (hbare : ∀ s, t.child? root s = none ∧ u.child? root s = none)
    (hab : ∀ name ∈ names, ¬ tainted name → Value.lookup? name a = Value.lookup? name b) :
    Twin tainted (Matching tainted names t₁ u₁) t₁ u₁ := by
  have hlt := ht.grows.linked
  have hlu := hu.grows.linked
  have hchild : ∀ s, s ∈ names ∧ (∃ i j, t₁.child? root s = some i ∧ u₁.child? root s = some j) ∨
      t₁.child? root s = none ∧ u₁.child? root s = none := by
    intro s
    by_cases hs : s ∈ names
    · obtain ⟨i, hi, -⟩ := ht.child s hs
      obtain ⟨j, hj, -⟩ := hu.child s hs
      exact .inl ⟨hs, i, j, hi, hj⟩
    · exact .inr ⟨(ht.other s hs).trans (hbare s).1, (hu.other s hs).trans (hbare s).2⟩
  refine ⟨⟨?_, ?_, ?_⟩, ⟨hlt, hlu⟩, ?_, ?_, ?_⟩
  · intro s
    rcases hchild s with ⟨-, i, j, hi, hj⟩ | ⟨hi, hj⟩ <;> rw [hi, hj]
    rfl
  · intro s hs
    rcases hchild s with ⟨hmem, i, j, hi, hj⟩ | ⟨hi, hj⟩
    · rw [hi, hj]
      exact .some ⟨s, hmem, hs, hi, hj⟩
    · rw [hi, hj]
      exact .none
  · rintro i j s ⟨name, -, hclean, hi, hj⟩ hs
    refine ⟨fun hi' => ?_, fun hj' => ?_⟩
    · obtain ⟨-, rfl⟩ := hlt.child?_inj hi hi'
      exact hclean hs
    · obtain ⟨-, rfl⟩ := hlu.child?_inj hj hj'
      exact hclean hs
  · rintro i j ⟨name, hname, hclean, hi, hj⟩
    obtain ⟨i', hi', -, hk⟩ := ht.child name hname
    obtain ⟨j', hj', -, hl⟩ := hu.child name hname
    obtain rfl := Option.some.inj (hi'.symm.trans hi)
    obtain rfl := Option.some.inj (hj'.symm.trans hj)
    exact ⟨_, _, hk, hl, ⟨hab name hname hclean, rfl, rfl⟩,
      ⟨root, root, rfl, rfl, .inr ⟨rfl, rfl⟩⟩, .nil⟩
  · rintro i j i' j' ⟨name, -, -, hi, hj⟩ ⟨name', -, -, hi', hj'⟩
    constructor
    · rintro rfl
      obtain ⟨-, rfl⟩ := hlt.child?_inj hi hi'
      exact Option.some.inj (hj.symm.trans hj')
    · rintro rfl
      obtain ⟨-, rfl⟩ := hlu.child?_inj hj hj'
      exact Option.some.inj (hi.symm.trans hi')
  · rintro i j ⟨name, -, -, hi, hj⟩
    exact ⟨Nat.ne_of_gt (hlt.child_lt hi), Nat.ne_of_gt (hlu.child_lt hj)⟩

/-- Two runs of the members of the root, each on the children that it has attached. -/
structure InStep (tainted : String → Prop) (r₀ r₁ s₀ s₁ : Run) (done : List String)
    (r s : Run) : Prop where
  left : Ongoing root r₀ r₁ done r
  right : Ongoing root s₀ s₁ done s
  twin : ∃ ρ, Twin tainted ρ r.tree s.tree

/-- A tainted member works on trackers without a twin, any other is mirrored. -/
theorem InStep.member {done : List String} {r s : Run} {name : String} {e : Entity}
    (ha : schedule.Arranges none (members.map fun m => (m.1, m.2.references)) escaping)
    (hmember : ∀ s, tainted s → s ∈ members.map (·.1))
    (hclosed : ∀ p s, tainted p → Schedule.Joins schedule.edges p s → tainted s)
    (harranged : Arranged (some name) e) (he : Table.get? members name = some e)
    (hr : Attached root (members.map (·.1)) a r₀.tree r₁.tree)
    (hs : Attached root (members.map (·.1)) b s₀.tree s₁.tree)
    (h : InStep tainted r₀ r₁ s₀ s₁ done r s) :
    InStep tainted r₀ r₁ s₀ s₁ (done ++ [name]) (runMember (memberStages members) root name r)
      (runMember (memberStages members) root name s) := by
  obtain ⟨hleft, hright, ρ, ht⟩ := h
  obtain ⟨c, hc, hcle, -⟩ := hr.child name (Table.mem_names_of_get? he)
  obtain ⟨d, hd, hdle, -⟩ := hs.child name (Table.mem_names_of_get? he)
  have hc' := (hleft.child?_eq name).trans hc
  have hd' := (hright.child?_eq name).trans hd
  obtain ⟨hlr, hls⟩ := ht.linked
  have hrun : Advances c r (e.process c r) := process_advances harranged hlr (hlr.child_lt_size hc')
  have hrun' : Advances d s (e.process d s) :=
    process_advances harranged hls (hls.child_lt_size hd')
  rw [runMember_eq he hc', runMember_eq he hd']
  refine ⟨hleft.member hr.grows.linked hc hcle hrun,
    hright.member hs.grows.linked hd hdle hrun', ?_⟩
  by_cases hname : tainted name
  · have hroot : ∀ {t : TrackerTree} {x}, t.Linked → t.child? root name = some x →
        root < t.size ∧ root ≠ x := fun hl hx =>
      ⟨Nat.lt_trans (hl.child_lt hx) (hl.child_lt_size hx), Nat.ne_of_lt (hl.child_lt hx)⟩
    obtain ⟨hlt, hne⟩ := hroot hlr hc'
    obtain ⟨hlt', hne'⟩ := hroot hls hd'
    refine ⟨ρ, ht.frame ⟨hrun.grows.linked, hrun'.grows.linked⟩ (fun s' => ?_) fun {i j} hij => ?_⟩
    · exact ⟨hrun.grows.child?_eq hlt hne s', hrun'.grows.child?_eq hlt' hne' s'⟩
    · obtain ⟨hi, hj⟩ := ht.lt_size hij
      obtain ⟨hic, hjd⟩ := ht.apart hij hname
      exact ⟨hrun.grows.frame hi fun h => hic (h ▸ hc'),
        hrun'.grows.frame hj fun h => hjd (h ▸ hd')⟩
  · have hcd : ρ c d := by
      have hrel := ht.clean name hname
      rw [hc', hd'] at hrel
      exact Option.rel_some_some.1 hrel
    have hscreened : Screened tainted (some name) e c r.tree :=
      .top ha he hc' hname hmember fun first hfirst hj => hname (hclosed first name hfirst hj)
    obtain ⟨ρ', -, ht'⟩ := process_mirrors harranged ρ c d r s ht hcd hscreened
    exact ⟨ρ', ht'⟩

theorem runSchedule_twin
    (ha : schedule.Arranges none (members.map fun m => (m.1, m.2.references)) escaping)
    (hm : ∀ m ∈ members, Arranged (some m.1) m.2)
    (hmember : ∀ s, tainted s → s ∈ members.map (·.1))
    (hclosed : ∀ p s, tainted p → Schedule.Joins schedule.edges p s → tainted s)
    (hr : Attached root (members.map (·.1)) a r₀.tree r₁.tree)
    (hs : Attached root (members.map (·.1)) b s₀.tree s₁.tree)
    (h : InStep tainted r₀ r₁ s₀ s₁ [] r₁ s₁) :
    ∃ ρ, Twin tainted ρ (runSchedule schedule (memberStages members) root r₁).tree
      (runSchedule schedule (memberStages members) root s₁).tree := by
  obtain ⟨keys, hserves, hrun⟩ := runSchedule_eq ha
  rw [hrun, hrun]
  refine (foldl_both (fun done name rest hkeys r s hrs => ?_) h).twin
  obtain ⟨e, he, hmem⟩ := exists_entity (hserves.mem_next hkeys)
  exact hrs.member ha hmember hclosed (hm _ hmem) he hr hs

end Members

/-! ## The object at the root -/

/-- What a local stage on the root keeps. -/
theorem rootOnly_keeps (paths : List Path) (t : TrackerTree) :
    Keeps paths root fun r => RootOnly t r.tree where
  touch hf h := h.update hf
  note _ _ h := h
  tally htree _ h := by rwa [htree]
  lookUp _ h := h

/-- A run on an object before its members are attached. -/
def emptied (n : Nat) (input : List (String × Value)) : Run :=
  ((start n root (.ofValue (some (.object input)))).enter root).setValue root none

/-- A run on an object whose members are attached. -/
def opened (names : List String) (n : Nat) (input : List (String × Value)) : Run :=
  (emptied n input).mapTree (attachMembers root names input)

/-- A tree of nothing but its root. -/
structure Bare (t : TrackerTree) : Prop where
  linked : t.Linked
  root_lt : root < t.size
  child : ∀ s, t.child? root s = none

theorem bare_start (n : Nat) (value : Option Value) :
    Bare (start n root (.ofValue value)).tree :=
  ⟨(Grows.update (linked_ofValue value) root (Tracker.onContent_claim n)).linked, Nat.one_pos,
    fun _ => rfl⟩

theorem bare_emptied (n : Nat) (input : List (String × Value)) : Bare (emptied n input).tree := by
  have hstart := (bare_start n (some (.object input))).linked
  exact ⟨(Grows.update hstart root (Tracker.onContent_setValue none)).linked, Nat.one_pos,
    fun _ => rfl⟩

section Root

variable {t : TrackerTree} {n : Nat} {source : Chain} {resolver : Option Entity}
  {pipeline : Pipeline} {members : List (String × Entity)} {schedule : Schedule String}
  {policy : UnknownKeys} {escaping : List Path} {input : List (String × Value)}

theorem inspectObject_rootOnly (h : RootOnly t (runSchedule schedule (memberStages members) root
      (opened (members.map (·.1)) n input)).tree) :
    RootOnly t (inspectObject (memberStages members) schedule policy root
      ((start n root (.ofValue (some (.object input)))).enter root)).tree := by
  show RootOnly t (andThen (runSchedule schedule (memberStages members))
    (assemble policy (Table.names (memberStages members)) _) root
    (opened (Table.names (memberStages members)) n input)).tree
  rw [names_memberStages]
  have hassemble : ∀ unknown r, RootOnly t r.tree →
      RootOnly t (assemble policy (members.map (·.1)) unknown root r).tree := fun unknown r hr =>
    assemble_keeps (P := fun r => RootOnly t r.tree)
      (fun _ _ hf => (rootOnly_keeps [] t).touch hf) policy _ unknown hr
  exact andThen_keeps (P := fun r => RootOnly t r.tree) h (hassemble _)

/-- An object is forbidden as a whole, or processed. -/
theorem run_behaviour (hooks : Hooks) :
    (Entity.mk n source resolver (.behaviour pipeline hooks)).run (some (.object input)) =
      if source.props.forbidden then
        (start n root (.ofValue (some (.object input)))).record root (.of "generic/forbidden" [])
      else behave (.behaviour pipeline hooks) root (start n root (.ofValue (some (.object input))))
    := by
  unfold Entity.run process replace
  rfl

/-- All that an object without a format step does after its members have run is work on the
root. -/
theorem run_rootOnly (hformat : pipeline.format = none)
    (hallowed : ¬ source.props.forbidden)
    (h : RootOnly t (runSchedule schedule (memberStages members) root
      (opened (members.map (·.1)) n input)).tree) :
    RootOnly t ((Entity.mk n source resolver (.behaviour pipeline
      (.object members schedule policy escaping))).run (some (.object input))).tree := by
  have hsteps : Local (fun _ => False) (pipeline.steps.flatMap fun s => s.args.filterMap (·.path?))
      (runSteps pass pipeline.steps) :=
    .runSteps .pass fun s hs path hpath => List.mem_flatMap.2 ⟨s, hs, hpath⟩
  rw [run_behaviour, if_neg hallowed]
  simp only [behave, inspect, convert, runPipeline, hformat, leave]
  exact andThen_keeps (P := fun r => RootOnly t r.tree) (inspectObject_rootOnly h)
    fun r hr => hsteps.keeps (rootOnly_keeps _ t) (fun _ h => h.elim) hr

theorem run_forbidden {hooks : Hooks} (hforbidden : source.props.forbidden) :
    RootOnly (start n root (.ofValue (some (.object input)))).tree ((Entity.mk n source resolver
      (.behaviour pipeline hooks)).run (some (.object input))).tree := by
  have hstart := RootOnly.refl (bare_start n (some (.object input))).linked
  rw [run_behaviour, if_pos hforbidden]
  exact hstart.update (Tracker.onContent_record _)

/-- An object leaves twin trees behind if the inputs agree where nothing is tainted. -/
theorem run_twin {tainted : String → Prop} {a b : List (String × Value)}
    (hformat : pipeline.format = none)
    (h : Arranged none (.mk n source resolver
      (.behaviour pipeline (.object members schedule policy escaping))))
    (hmember : ∀ s, tainted s → s ∈ members.map (·.1))
    (hclosed : ∀ p s, tainted p → Schedule.Joins schedule.edges p s → tainted s)
    (hab : ∀ name ∈ members.map (·.1), ¬ tainted name →
      Value.lookup? name a = Value.lookup? name b) :
    ∃ ρ, Twin tainted ρ
      ((Entity.mk n source resolver (.behaviour pipeline
        (.object members schedule policy escaping))).run (some (.object a))).tree
      ((Entity.mk n source resolver (.behaviour pipeline
        (.object members schedule policy escaping))).run (some (.object b))).tree := by
  by_cases hforbidden : source.props.forbidden
  · have hbare := bare_start n (some (.object a))
    have hbare' := bare_start n (some (.object b))
    have hr : Attached root [] a _ (start n root (.ofValue (some (.object a)))).tree :=
      attached_attachMembers [] hbare.linked hbare.root_lt
    have hs : Attached root [] b _ (start n root (.ofValue (some (.object b)))).tree :=
      attached_attachMembers [] hbare'.linked hbare'.root_lt
    have htwin : Twin tainted _ _ _ :=
      hr.twin hs (fun s => ⟨hbare.child s, hbare'.child s⟩) (by simp)
    exact ⟨_, htwin.rootOnly (run_forbidden hforbidden) (run_forbidden hforbidden)⟩
  · have hbare := bare_emptied n a
    have hbare' := bare_emptied n b
    have hr : Attached root (members.map (·.1)) a (emptied n a).tree
        (opened (members.map (·.1)) n a).tree :=
      attached_attachMembers _ hbare.linked hbare.root_lt
    have hs : Attached root (members.map (·.1)) b (emptied n b).tree
        (opened (members.map (·.1)) n b).tree :=
      attached_attachMembers _ hbare'.linked hbare'.root_lt
    have hstart : InStep tainted (emptied n a) (opened (members.map (·.1)) n a) (emptied n b)
        (opened (members.map (·.1)) n b) [] (opened (members.map (·.1)) n a)
        (opened (members.map (·.1)) n b) :=
      ⟨⟨.of_grows hr.grows rfl, rfl, fun _ _ => rfl⟩, ⟨.of_grows hs.grows rfl, rfl, fun _ _ => rfl⟩,
        _, hr.twin hs (fun s => ⟨hbare.child s, hbare'.child s⟩) hab⟩
    cases h with
    | single _ hb => exact hb.elim
    | object _ harranges hm =>
      obtain ⟨ρ, ht⟩ := runSchedule_twin harranges hm hmember hclosed hr hs hstart
      exact ⟨ρ, ht.rootOnly (run_rootOnly hformat hforbidden (.refl ht.linked.1))
        (run_rootOnly hformat hforbidden (.refl ht.linked.2))⟩

end Root

/-! ## The main result -/

/-- The key `m`, if it is a member, and the members that wait for it, directly or through
others. -/
def Downstream (schedule : Schedule String) (members : List String) (m name : String) : Prop :=
  name ∈ members ∧ ReflTransGen (Schedule.Joins schedule.edges) m name

theorem Downstream.step {own : Option String} {members : List (String × Entity)}
    {schedule : Schedule String} {escaping : List Path} {m p name : String}
    (ha : schedule.Arranges own (members.map fun m => (m.1, m.2.references)) escaping)
    (h : Downstream schedule (members.map (·.1)) m p)
    (hj : Schedule.Joins schedule.edges p name) :
    Downstream schedule (members.map (·.1)) m name := by
  exact ⟨ha.names_members ▸ (ha.sound.registered p name hj).2, h.2.tail hj⟩

/-- Inputs that differ at the key `m` only are processed alike below every member that does not
wait for `m`, directly or through others. -/
theorem independent_members {c : Chain} {fields : List (String × Chain)}
    (hkind : c.kind = .object fields) (hformat : Chain.formatStep? c.pipeline = none) {e : Entity}
    (h : Mapper.standard.compile c = .ok e) :
    ∃ schedule, e.schedule? = some schedule ∧
      ∀ {a b : List (String × Value)} {m : String},
        (∀ key, key ≠ m → Value.lookup? key a = Value.lookup? key b) →
        ∀ {name : String}, name ≠ m → ¬ TransGen (Schedule.Joins schedule.edges) m name →
        ∀ below, (e.run (some (.object a))).tree.shown? (name :: below) =
          (e.run (some (.object b))).tree.shown? (name :: below) := by
  have harranged := Mapper.compile_arranged h
  obtain ⟨n, resolver, members, schedule, escaping, rfl⟩ :=
    Mapper.compile_object (m := Mapper.standard) rfl hkind h
  refine ⟨schedule, rfl, fun {a b m} hab name hne hpath below => ?_⟩
  have harranges :
      schedule.Arranges none (members.map fun m => (m.1, m.2.references)) escaping := by
    cases harranged with
    | single _ hb => exact hb.elim
    | object _ harranges _ => exact harranges
  have hagree : ∀ key ∈ members.map (·.1), ¬ Downstream schedule (members.map (·.1)) m key →
      Value.lookup? key a = Value.lookup? key b := by
    intro key hkey hclean
    refine hab key ?_
    rintro rfl
    exact hclean ⟨hkey, .refl⟩
  have hclean : ¬ Downstream schedule (members.map (·.1)) m name := by
    rintro ⟨-, hreach⟩
    rcases reflTransGen_iff_eq_or_transGen.1 hreach with rfl | hreach
    · exact hne rfl
    · exact hpath hreach
  obtain ⟨ρ, htwin⟩ := run_twin (Pipeline.format_ofSteps hformat) harranged (fun _ hs => hs.1)
    (fun _ _ hp hj => hp.step harranges hj) hagree
  exact htwin.shown?_eq hclean below

/-- An object with a member that has to wait for a second, for a look-up from inside of it, and
with a third that nobody waits for. -/
def nesting : Chain :=
  .ofKind (.object [
    ("inner", .ofKind (.object [("copy", .ofPath ⟨["shared"]⟩)]) Registry.empty),
    ("shared", .ofKind .any Registry.empty),
    ("other", .ofKind .any Registry.empty)]) Registry.empty

/-- What it compiles to. -/
def nested : Entity :=
  .mk 0 nesting none (.behaviour ⟨none, []⟩ (.object
    [("inner", .mk 1 (.ofKind (.object [("copy", .ofPath ⟨["shared"]⟩)]) Registry.empty) none
        (.behaviour ⟨none, []⟩ (.object
          [("copy", .mk 2 (.ofPath ⟨["shared"]⟩) none (.reference ⟨["shared"]⟩ ⟨none, []⟩))]
          ⟨[("copy", some "copy")], [], some ["copy"]⟩ .strip [⟨["shared"]⟩]))),
      ("shared", .mk 3 (.ofKind .any Registry.empty) none (.behaviour ⟨none, []⟩ .pass)),
      ("other", .mk 4 (.ofKind .any Registry.empty) none (.behaviour ⟨none, []⟩ .pass))]
    ⟨[("inner", some "inner"), ("shared", some "shared"), ("other", some "other")],
      [("shared", "inner")], some ["shared", "inner", "other"]⟩ .strip []))

theorem compile_nesting : Mapper.standard.compile nesting = .ok nested := by cbv

theorem independent_members_nested :
    Mapper.standard.compile nesting = .ok nested ∧
    (nested.run (some (.object [("other", .null), ("shared", .bool true)]))).tree.shown?
        ["inner", "copy"] =
      (nested.run (some (.object [("shared", .bool true)]))).tree.shown? ["inner", "copy"] := by
  refine ⟨compile_nesting, ?_⟩
  obtain ⟨schedule, hschedule, hsame⟩ := independent_members rfl rfl compile_nesting
  obtain rfl := Option.some.inj hschedule
  refine hsame (m := "other") (fun key hkey => ?_) (by decide) (fun hpath => ?_) ["copy"]
  · show (List.find? _ (("other", Value.null) :: _)).map _ = _
    rw [List.find?_cons_of_neg (by simpa using hkey.symm)]
    rfl
  · obtain ⟨next, hj, -⟩ := TransGen.head'_iff.1 hpath
    have hj : ("other", next) ∈ [("shared", "inner")] := hj
    simp at hj

end Run

end Intake
