import Intake.Outcome
import Intake.Proofs.Entity.Rearranged
import Intake.Proofs.Run.Mimicry
import Intake.Proofs.Tracker.Collected
/-!
# Alone and in the middle of a tree

A chain that looks up nothing makes the same of a value wherever it is: at any tracker without
children and issues, of any tree, it makes the subtree that it makes of the value alone, in a fresh
tree, and in as many steps (`processed_alone`):

    c.Silent → standard.compileChain c own n = .ok (e, n') →
      ∃ alone, standard.compile c = .ok alone ∧
        (e.process id r).tree.Copies id (r.tree.pathOf id) (alone.run k.value).tree

What it is compiled to alone differs in its numbers only, so the two go in pace (`Entity.Echoes`).
The items of a list and the members of an object begin at new children, and what is done later does
not move them (`ChildIs`).
-/

namespace Intake

open TrackerTree Run Entity

/-! ## Trees -/

/-- The trees that there are: the fresh ones, those with one more child, those where what a tracker
carries has changed, and those in which a compiled entity has processed a tracker. -/
inductive TrackerTree.Built : TrackerTree → Prop
  | fresh (value : Option Value) : Built (.ofValue value)
  | attach {t : TrackerTree} {parent : TrackerId} (h : Built t) (hparent : parent < t.size)
      (segment : String) (value : Option Value) : Built (t.attach parent segment value).2
  | update {t : TrackerTree} {f : Tracker → Tracker} (h : Built t) (id : TrackerId)
      (hf : Tracker.OnContent f) : Built (t.update id f)
  | process {m : Mapper} {c : Chain} {own : Option String} {n n' : Nat} {e : Entity} {r : Run}
      {id : TrackerId} (h : Built r.tree) (he : m.compileChain c own n = .ok (e, n'))
      (hid : id < r.tree.size) : Built (e.process id r).tree

theorem TrackerTree.Built.linked {t : TrackerTree} (h : t.Built) : t.Linked := by
  induction h with
  | fresh value => exact linked_ofValue value
  | attach _ hparent segment value ih => exact (Grows.attach ih hparent segment value).linked
  | update _ id hf ih => exact (Grows.update ih id hf).linked
  | process _ he hid ih =>
    exact (process_advances (Mapper.compileChain_arranged _ _ _ _ _ _ he) ih hid).grows.linked

/-- A tracker and all below it show what another tree shows from its root on, and their issues are
those of the other tree with `front` in front of their paths. -/
structure TrackerTree.Copies (t : TrackerTree) (id : TrackerId) (front : List String)
    (u : TrackerTree) : Prop where
  seen : ∀ address, (t.seen? id address).map (·.content) = (u.seen? root address).map (·.content)
  issues : t.collect id = u.collectUnder front root

theorem TrackerTree.Resembles.copies {t u : TrackerTree} {id : TrackerId}
    (h : Resembles Eq t u id root) (ht : t.Linked) (hu : u.Linked) (hroot : u.pathOf root = []) :
    t.Copies id (t.pathOf id) u := by
  refine ⟨fun address => ?_, h.collect_eq ht hu hroot⟩
  have hseen := h.seen shuffles_eq address
  generalize t.seen? id address = x, u.seen? root address = y at hseen
  cases hseen with
  | none => rfl
  | some hkl => exact congrArg some hkl.content_eq

/-! ## Entities -/

/-- From any tracker where it may begin, the entity goes in pace with the other one alone. -/
structure Entity.Echoes (e alone : Entity) : Prop where
  arranged : Arranged none alone
  inPace : ∀ id r k, Bare id r k →
    InPace Eq id root r (.ofValue k.value) (e.process id r) (alone.run k.value)

namespace Entity.Echoes

variable {e alone : Entity} {id : TrackerId} {r : Run} {k : Tracker}

theorem linked (h : Echoes e alone) (v : Option Value) : (alone.run v).tree.Linked :=
  (run_told h.arranged v).1

theorem pathOf_root (h : Echoes e alone) (v : Option Value) :
    (alone.run v).tree.pathOf root = [] :=
  (run_told h.arranged v).2.2.1

theorem steps (h : Echoes e alone) (hk : Bare id r k) :
    (e.process id r).steps = r.steps + (alone.run k.value).steps := by
  obtain ⟨n, hn, halone⟩ := (h.inPace id r k hk).steps
  rw [hn, halone]
  exact congrArg (r.steps + ·) (Nat.zero_add n).symm

theorem copies (h : Echoes e alone) (hk : Bare id r k) :
    (e.process id r).tree.Copies id (r.tree.pathOf id) (alone.run k.value).tree := by
  have hpace := h.inPace id r k hk
  rw [← hpace.left.grows.pathOf_eq hk.linked (lt_size_of_get? hk.get)]
  exact hpace.alike.copies hpace.left.grows.linked (h.linked _) (h.pathOf_root _)

end Entity.Echoes

/-- What a silent chain is compiled to echoes what it is compiled to alone. -/
theorem Mapper.exists_echoes {c : Chain} (hc : c.Silent) {own : Option String} {n n' : Nat}
    {e : Entity} (he : standard.compileChain c own n = .ok (e, n')) :
    ∃ alone, standard.compile c = .ok alone ∧ e.Echoes alone := by
  have he := compileChain_silent hc he none
  have hsame : c.Rearranged Eq c := .of_silent (fun _ => rfl) c hc
  obtain ⟨alone, m, halone⟩ := compiles_rearranged shuffles_eq hsame he 0
  refine ⟨alone, compile_eq_ok.2 ⟨m, halone⟩, compileChain_arranged _ _ _ _ _ _ halone,
    fun id r k hk => ?_⟩
  obtain ⟨hsource, hfits⟩ := compileChain_fits c none n n' e he
  have hnone : e.references = [] :=
    references_eq_nil (compileChain_arranged _ _ _ _ _ _ he) hfits (hsource ▸ hc)
  refine (alike_of_compileChain hsame he halone).mimics shuffles_eq id root r (.ofValue k.value)
    ⟨⟨hk.linked, linked_ofValue _⟩, ⟨⟨k, hk.get, hk.children⟩, ⟨_, rfl, rfl⟩⟩, ?_,
      ⟨.unnamed, .unnamed⟩, by simp [hnone]⟩
  exact .of_bare shuffles_eq hk.get rfl rfl ⟨hk.issues_eq, rfl⟩ ⟨hk.children, rfl⟩

namespace Run

/-! ## Children -/

/-- The child of a name is what another run has made of its root. -/
def ChildIs (s : String) (a : Run) (id : TrackerId) (t : TrackerTree) : Prop :=
  ∃ c, t.child? id s = some c ∧ t.Resembles Eq a.tree c root

namespace ChildIs

variable {s : String} {a : Run} {id : TrackerId} {t t' : TrackerTree} {e alone : Entity}
  {v : Option Value}

/-- The child does not move. -/
theorem move (h : ChildIs s a id t) (hchild : t'.child? id s = t.child? id s)
    (hunmoved : ∀ c, t.child? id s = some c → Unmoved t t' c) : ChildIs s a id t' := by
  obtain ⟨c, hc, halike⟩ := h
  exact ⟨c, hchild.trans hc, halike.move (hunmoved c hc) (.refl _ _)⟩

/-- What the tracker itself carries may change. -/
theorem touch (h : ChildIs s a id t) (hl : t.Linked) {f : Tracker → Tracker}
    (hf : Tracker.OnContent f) : ChildIs s a id (t.update id f) := by
  refine h.move ?_ fun c hc => ?_
  · rw [TrackerTree.child?, TrackerTree.child?, get?_update_self]
    cases t.get? id with
    | none => rfl
    | some k => simp [Tracker.child?, (hf.links k).2.2]
  · exact (Grows.update hl id hf).unmoved hl (hl.child_lt_size hc) (hl.not_below_parent hc)

theorem parts (h : ChildIs s (alone.run v) id t) (hl : t.Linked) (he : e.Echoes alone)
    (raw : String → Option Value) :
    (t.parts id raw s).failing = !(alone.run v).isValid ∧
      (t.parts id raw s).value = (alone.run v).finalValue := by
  obtain ⟨c, hc, halike⟩ := h
  rw [TrackerTree.parts, hc, isValid, Bool.not_not]
  exact ⟨halike.hasIssuesBelow_eq shuffles_eq hl (he.linked v), halike.value?_eq⟩

theorem copies (h : ChildIs s (alone.run v) id t) (hl : t.Linked) (he : e.Echoes alone) :
    ∃ c, t.child? id s = some c ∧ t.Copies c (t.pathOf id ++ [s]) (alone.run v).tree := by
  obtain ⟨c, hc, halike⟩ := h
  refine ⟨c, hc, ?_⟩
  rw [← hl.pathOf_child hc]
  exact halike.copies hl (he.linked v) (he.pathOf_root v)

end ChildIs

/-! ## Lists -/

section

variable {items alone : Entity} {values : List Value} {id : TrackerId} {r₀ r : Run} {i : Nat}
  {v : Value}

/-- The first `n` items of a list are what they are alone. -/
structure ItemsAre (alone : Entity) (values : List Value) (id : TrackerId) (r₀ : Run) (n : Nat)
    (r : Run) : Prop where
  linked : r.tree.Linked
  lt : id < r.tree.size
  child : ∀ {i v}, i < n → values[i]? = some v →
    ChildIs (toString i) (alone.run (some v)) id r.tree
  steps : r.steps = r₀.steps + ((values.take n).map fun v => (alone.run (some v)).steps).sum

theorem ItemsAre.touch {n : Nat} (h : ItemsAre alone values id r₀ n r) {f : Tracker → Tracker}
    (hf : Tracker.OnContent f) : ItemsAre alone values id r₀ n (r.mapTree (·.update id f)) where
  linked := (Grows.update h.linked id hf).linked
  lt := h.lt.trans_eq (size_update _ _).symm
  child hi hv := (h.child hi hv).touch h.linked hf
  steps := h.steps

/-- An item begins at a new child. -/
theorem bare_item (hl : r.tree.Linked) (hid : id < r.tree.size) (i : Nat) (v : Value) :
    Intake.Bare r.tree.size { r with tree := (r.tree.attach id (toString i) (some v)).2 }
      { value := some v, parent := some id, segment := some (toString i) } :=
  ⟨(Grows.attach hl hid _ _).linked, get?_attach_size hid _ _, rfl, rfl⟩

/-- One more item is processed. -/
theorem ItemsAre.item (hitems : items.Echoes alone) (h : ItemsAre alone values id r₀ i r)
    (hv : values[i]? = some v) : ItemsAre alone values id r₀ (i + 1) (itemRun items id i v r) := by
  have hbare := bare_item h.linked h.lt i v
  have hpace := hitems.inPace _ _ _ hbare
  obtain ⟨hchild, hunmoved⟩ := h.linked.beside_attached h.lt hpace.left.grows
  refine ⟨hpace.left.grows.linked, ?_, fun {j w} hj hw => ?_, ?_⟩
  · have hsize := (Grows.attach h.linked h.lt (toString i) (some v)).size
    exact Nat.lt_of_lt_of_le h.lt (Nat.le_trans hsize hpace.left.grows.size)
  · rcases Nat.lt_succ_iff_lt_or_eq.1 hj with hj | rfl
    · have hne := toString_ne (Nat.ne_of_lt hj)
      exact (h.child hj hw).move ((hchild _).trans (if_neg hne)) (hunmoved _ hne)
    · obtain rfl := Option.some.inj (hv.symm.trans hw)
      exact ⟨r.tree.size, (hchild _).trans (if_pos rfl), hpace.alike⟩
  · have htake : values.take (i + 1) = values.take i ++ [v] := by
      rw [List.take_add_one, hv, Option.toList_some]
    rw [htake, List.map_append, List.sum_append, ← Nat.add_assoc, ← h.steps]
    exact hitems.steps hbare

/-- What the inspection of a list makes of its tracker and of the items, if each is processed as it
is alone. -/
structure MapsItems (alone : Entity) (values : List Value) (id : TrackerId) (r r' : Run) :
    Prop where
  value : r'.value? id =
    some (.list (values.map fun v => ((alone.run (some v)).finalValue).getD .null))
  issues : (r'.tree.get? id).map (·.issues) = some (naming "array/items" "indexes"
    (((List.range values.length).filter fun i =>
      values[i]?.any fun v => !(alone.run (some v)).isValid).map .ofNat))
  children : (r'.tree.get? id).map (fun k => Table.names k.children) =
    some ((List.range values.length).map toString)
  item : ∀ (i : Nat) v, values[i]? = some v → ∃ c, r'.tree.child? id (toString i) = some c ∧
    r'.tree.Copies c (r.tree.pathOf id ++ [toString i]) (alone.run (some v)).tree
  steps : r'.steps = r.steps + (values.map fun v => (alone.run (some v)).steps).sum

theorem inspectList_alone {e : Entity} (he : ∀ s, e.child? s = some items)
    (harranged : Arranged none items) (hitems : items.Echoes alone) {k : Tracker}
    (hk : Intake.Bare id r k) (hv : k.value = some (.list values)) :
    MapsItems alone values id r (inspectList (some items.process) id r) := by
  have hvalue : r.value? id = some (.list values) := by
    rw [Run.value?, TrackerTree.value?, hk.get, Option.bind_some, hv]
  have hfirst : ItemsAre alone values id r 0 r :=
    ⟨hk.linked, lt_size_of_get? hk.get, fun hi => absurd hi (Nat.not_lt_zero _), rfl⟩
  have hall : ItemsAre alone values id r values.length
      (inspectList (some items.process) id r) :=
    inspectList_along hvalue (fun _ _ _ hf h => h.touch hf) (fun _ _ _ hv h => h.item hitems hv)
      hfirst
  -- what the tracker itself is in the end
  obtain ⟨raw, l, hmade, hfamily⟩ := Yields.list he (process_yields harranged) id r k hk
  obtain ⟨hnames, -, hl⟩ := (Change.inspects_list hv).1 hmade
  generalize inspectList (some items.process) id r = r' at *
  have hchild : ∀ {i : Nat} {v}, values[i]? = some v →
      ChildIs (toString i) (alone.run (some v)) id r'.tree :=
    fun hv => hall.child (List.getElem?_eq_some_iff.1 hv).1 hv
  have hparts : ∀ {i : Nat} {v}, values[i]? = some v →
      (r'.tree.parts id raw (toString i)).failing = !(alone.run (some v)).isValid ∧
        (r'.tree.parts id raw (toString i)).value = (alone.run (some v)).finalValue :=
    fun hv => (hchild hv).parts hall.linked hitems raw
  refine ⟨?_, ?_, ?_, fun i v hv => ?_, ?_⟩
  · rw [Run.value?, TrackerTree.value?, hfamily.get, Option.bind_some, hl]
    refine congrArg (some ∘ Value.list) (List.ext_getElem (by simp) fun i hi hi' => ?_)
    rw [List.length_map] at hi'
    simp only [List.getElem_map, List.getElem_range,
      (hparts (List.getElem?_eq_getElem hi')).2]
  · rw [hfamily.get, Option.map_some, hl, listed, hk.issues_eq,
      List.nil_append]
    refine congrArg (some ∘ naming "array/items" "indexes" ∘ List.map .ofNat)
      (List.filter_congr fun i hi => ?_)
    have hget := List.getElem?_eq_getElem (List.mem_range.1 hi)
    rw [(hparts hget).1, hget, Option.any_some]
  · rw [hfamily.get, Option.map_some, hnames]
  · rw [← hfamily.grows.pathOf_eq hk.linked (lt_size_of_get? hk.get)]
    exact (hchild hv).copies hall.linked hitems
  · rw [hall.steps, List.take_length]

end

/-! ## Objects -/

section

variable {members : List (String × Entity)} {schedule : Schedule String} {own : Option String}
  {escaping : List Path} {input : List (String × Value)} {name : String} {member alone : Entity}
  {id : TrackerId} {r r₀ r₁ : Run}

/-- A member comes to what it is alone, whatever the others do before and after. -/
theorem Scene.childIs (h : Scene own id members schedule escaping input r₀ r₁)
    (hm : Table.get? members name = some member) (he : member.Echoes alone) :
    (runSchedule schedule (memberStages members) id r₁).tree.Linked ∧
      ChildIs name (alone.run (Value.lookup? name input)) id
        (runSchedule schedule (memberStages members) id r₁).tree := by
  have hname := Table.mem_names_of_get? hm
  obtain ⟨c, hc, -, hget⟩ := h.exists_child hname
  obtain ⟨t, hattached, hsize, -⟩ := h.attached
  obtain ⟨keys, hcached⟩ := h.arranges.kept
  obtain ⟨hserves, -⟩ := runSchedule_cached h.arranges hcached
  have hadvances : ∀ m ∈ members, ∀ {c : TrackerId} {r : Run}, r.tree.Linked → c < r.tree.size →
      Advances c r (m.2.process c r) :=
    fun m hm => process_advances (h.arranged m hm)
  obtain ⟨hongoing, hall⟩ := runSchedule_along
    (Q := fun done r => name ∈ done → ChildIs name (alone.run (Value.lookup? name input)) id r.tree)
    h.arranges hcached hattached hsize h.start hadvances
    (fun {done other rest e d r} hkeys hother hd ho hQ hmem => by
      have hl := ho.advances.grows.linked
      have hdr := (ho.child?_eq other).trans hd
      rcases eq_or_ne name other with rfl | hne
      · obtain rfl := Option.some.inj (hm.symm.trans hother)
        obtain rfl := Option.some.inj (hc.symm.trans hd)
        have hbare : Intake.Bare c r _ :=
          ⟨hl, (ho.pending (hserves.next hkeys).1 hc).trans hget, rfl, rfl⟩
        have hpace := he.inPace _ _ _ hbare
        exact ⟨c, (hpace.left.grows.child?_parent hl hdr name).trans hdr, hpace.alike⟩
      · have hdone := (List.mem_append.1 hmem).resolve_right (mt List.mem_singleton.1 hne)
        have hg := (hadvances _ (Table.mem_of_get? hother) hl (hl.child_lt_size hdr)).grows
        exact (hQ hdone).move (hg.child?_parent hl hdr name) fun x hx =>
          hg.unmoved hl (hl.child_lt_size hx) (hl.not_below_sibling hx hdr hne))
    (fun hmem => absurd hmem List.not_mem_nil)
  exact ⟨hongoing.advances.grows.linked, hall ((hserves.mem name).2 hname)⟩

/-- What the inspection of an object makes of its tracker and of a member, if this is processed as
it is alone. -/
structure MapsMember (alone : Entity) (name : String) (input : List (String × Value))
    (id : TrackerId) (r r' : Run) : Prop where
  value : ∃ output, r'.value? id = some (.object output) ∧
    Value.lookup? name output = (alone.run (Value.lookup? name input)).finalValue
  issues : ∃ failing rejected : List String, (r'.tree.get? id).map (·.issues) =
      some (naming "object/members" "fields" (failing.map .str) ++
        naming "object/unknown-keys" "keys" (rejected.map .str)) ∧
    (name ∈ failing ↔ (alone.run (Value.lookup? name input)).isValid = false)
  member : ∃ c, r'.tree.child? id name = some c ∧
    r'.tree.Copies c (r.tree.pathOf id ++ [name]) (alone.run (Value.lookup? name input)).tree

theorem inspectObject_alone {e : Entity} (hchild : ∀ s, e.child? s = Table.get? members s)
    (hs : schedule.Arranges own (members.map fun m => (m.1, m.2.references)) escaping)
    (harranged : ∀ m ∈ members, Arranged (some m.1) m.2)
    (hm : Table.get? members name = some member) (he : member.Echoes alone) {k : Tracker}
    (hk : Intake.Bare id r k) (hv : k.value = some (.object input)) (policy : UnknownKeys) :
    MapsMember alone name input id r
      (inspectObject (memberStages members) schedule policy id r) := by
  have hname : name ∈ members.map (·.1) := Table.mem_names_of_get? hm
  have hvalue : r.value? id = some (.object input) := by
    rw [Run.value?, TrackerTree.value?, hk.get, Option.bind_some, hv]
  have hset := Tracker.onContent_setValue none
  have hscene := scene_attachMembers hs harranged hk.linked (.touch hk.linked id hset)
    (Childless.update ⟨k, hk.get, hk.children⟩ hset) input
  have hall : (inspectObject (memberStages members) schedule policy id r).tree.Linked ∧
      ChildIs name (alone.run (Value.lookup? name input)) id
        (inspectObject (memberStages members) schedule policy id r).tree := by
    have htouch : ∀ f (r : Run), Tracker.OnContent f → r.tree.Linked ∧
        ChildIs name (alone.run (Value.lookup? name input)) id r.tree →
        (r.mapTree (·.update id f)).tree.Linked ∧
          ChildIs name (alone.run (Value.lookup? name input)) id (r.mapTree (·.update id f)).tree :=
      fun f r hf h => ⟨(Grows.update h.1 id hf).linked, h.2.touch h.1 hf⟩
    rw [inspectObject_of_object hvalue]
    exact andThen_keeps (P := fun r => r.tree.Linked ∧
        ChildIs name (alone.run (Value.lookup? name input)) id r.tree)
      (hscene.childIs hm he) fun r hr => assemble_keeps htouch policy _ _ hr
  -- what the tracker itself is in the end
  obtain ⟨raw, l, hmade, hfamily⟩ := Yields.object hchild hs harranged
    (fun m hm => process_yields (harranged m hm)) policy id r k hk
  obtain ⟨-, -, hl⟩ := (Change.inspects_object hv).1 hmade
  generalize inspectObject (memberStages members) schedule policy id r = r' at *
  obtain ⟨hfailing, houtput⟩ := hall.2.parts hall.1 he raw
  generalize r'.tree.parts id raw = parts at *
  let names := members.map (·.1)
  refine ⟨⟨Value.sortMembers (outputOf parts policy names input), ?_, ?_⟩,
    ⟨names.filter fun name => (parts name).failing, rejectedBy policy names input, ?_, ?_⟩, ?_⟩
  · rw [Run.value?, TrackerTree.value?, hfamily.get, Option.bind_some, hl]
    rfl
  · rw [lookup?_outputOf, if_pos hname, houtput]
  · rw [hfamily.get, Option.map_some, hl, assembled, hk.issues_eq, List.nil_append]
  · rw [List.mem_filter, hfailing, Bool.not_eq_true']
    exact and_iff_right hname
  · rw [← hfamily.grows.pathOf_eq hk.linked (lt_size_of_get? hk.get)]
    exact hall.2.copies hall.1 he

end

/-! ## The main result -/

/-- A tracker of any tree that has neither children nor issues. -/
structure Fresh (id : TrackerId) (r : Run) (k : Tracker) : Prop where
  built : r.tree.Built
  get : r.tree.get? id = some k
  children : k.children = []
  issues : k.issues = []

theorem Fresh.bare {id : TrackerId} {r : Run} {k : Tracker} (h : Fresh id r k) :
    Intake.Bare id r k :=
  ⟨h.built.linked, h.get, h.children, by simp [Tracker.hasIssues, h.issues]⟩

/-- What a chain without paths is compiled to makes of any fresh tracker, in any tree, the subtree
that the chain makes of the value alone, in as many steps.  So a list maps its items one by one, and
an object each member with such a chain. -/
theorem processed_alone {c : Chain} (hc : c.Silent) :
    (∀ own n n' e, Mapper.standard.compileChain c own n = .ok (e, n') →
      ∃ alone, Mapper.standard.compile c = .ok alone ∧ ∀ id r k, Fresh id r k →
        (e.process id r).tree.Copies id (r.tree.pathOf id) (alone.run k.value).tree ∧
        (e.process id r).steps = r.steps + (alone.run k.value).steps) ∧
    (∀ props pipeline registry own n n' e,
      Mapper.standard.compileChain (.mk (.array (some c)) props pipeline registry) own n =
        .ok (e, n') →
      ∃ alone p hooks, Mapper.standard.compile c = .ok alone ∧ e.body = .behaviour p hooks ∧
        ∀ id r k values, Fresh id r k → k.value = some (.list values) →
          MapsItems alone values id r (inspect hooks id r)) ∧
    ∀ fields name props pipeline registry own n n' e, Table.get? fields name = some c →
      Mapper.standard.compileChain (.mk (.object fields) props pipeline registry) own n =
        .ok (e, n') →
      ∃ alone p hooks, Mapper.standard.compile c = .ok alone ∧ e.body = .behaviour p hooks ∧
        ∀ id r k input, Fresh id r k → k.value = some (.object input) →
          MapsMember alone name input id r (inspect hooks id r) := by
  refine ⟨fun own n n' e he => ?_, fun props pipeline registry own n n' e he => ?_,
    fun fields name props pipeline registry own n n' e hfield he => ?_⟩
  · obtain ⟨alone, halone, hechoes⟩ := Mapper.exists_echoes hc he
    exact ⟨alone, halone, fun id r k hk => ⟨hechoes.copies hk.bare, hechoes.steps hk.bare⟩⟩
  · obtain ⟨-, _, _, _, -, hbody, hmk⟩ := Mapper.compileChain_eq_ok.1 he
    obtain ⟨items, hitems, rfl⟩ := (Mapper.compileItems_eq_ok rfl).1 hbody
    obtain ⟨alone, halone, hechoes⟩ := Mapper.exists_echoes hc hitems
    have harranged := Mapper.compileChain_arranged _ _ _ _ _ _ hitems
    have hchild : ∀ s, e.child? s = some items := fun _ => hmk ▸ rfl
    refine ⟨alone, _, _, halone, congrArg Entity.body hmk, fun id r k values hk hv => ?_⟩
    exact inspectList_alone hchild harranged hechoes hk.bare hv
  · obtain ⟨-, _, _, _, -, hbody, hmk⟩ := Mapper.compileChain_eq_ok.1 he
    obtain ⟨members, schedule, escaping, hmembers, hmade, rfl⟩ :=
      (Mapper.compileObject_eq_ok rfl).1 hbody
    have hs := Schedule.ofMembers_arranges hmade
    have hchild : ∀ s, e.child? s = Table.get? members s := fun _ => hmk ▸ rfl
    have hnames : members.map (·.1) = fields.map (·.1) := by
      rw [← (Mapper.compileMembers_fits fields _ _ members hmembers).1, Table.names_map]
    -- the member of the name has been compiled from `c`
    have hname : name ∈ members.map (·.1) := hnames.symm ▸ Table.mem_names_of_get? hfield
    obtain ⟨member, hm, hmem⟩ := exists_entity hname
    obtain ⟨field, _, _, hfield', hmember⟩ := Mapper.member_of_compileMembers hmembers _ hmem
    have hnodup : (fields.map (·.1)).Nodup := hnames ▸ hs.nodup_members
    obtain rfl := Option.some.inj ((Table.get?_of_mem hnodup hfield').symm.trans hfield)
    obtain ⟨alone, halone, hechoes⟩ := Mapper.exists_echoes hc hmember
    have harranged := Mapper.compileMembers_arranged _ fields _ _ members hmembers
    refine ⟨alone, _, _, halone, congrArg Entity.body hmk, fun id r k input hk hv => ?_⟩
    exact inspectObject_alone hchild hs harranged hm hechoes hk.bare hv _

/-- An object with a number that must be there. -/
def measured : Chain :=
  .ofKind (.object [("size", .mk .number { required := true } [] Registry.empty)]) Registry.empty

theorem silent_measured : measured.Silent := by
  refine .object rfl rfl fun f hf => ?_
  obtain rfl := List.mem_singleton.1 hf
  exact .leaf (fun _ => rfl) rfl

/-- An object with such a member, and one that looks up what is inside of it. -/
def boxed : Chain :=
  .ofKind (.object [("copy", .ofPath ⟨["box", "size"]⟩), ("box", measured)]) Registry.empty

def sized (v : Value) : Value := .object [("size", v)]

/-- A tree with a list below its root, the second item of which is wrong. -/
def boxes : Run :=
  { tree := ((TrackerTree.ofValue none).attach root "boxes"
      (some (.list [sized (.num (.int 3)), sized (.str "big")]))).2 }

/-- A tree with an object below its root. -/
def parcel : Run :=
  { tree := ((TrackerTree.ofValue none).attach root "parcel"
      (some (.object [("box", sized (.num (.int 3)))]))).2 }

theorem processed_alone_boxes : measured.Silent ∧ ∃ alone,
    Mapper.standard.compile measured = .ok alone ∧
    (∃ e, (∃ n, Mapper.standard.compileChain measured (some "parcel") 7 = .ok (e, n)) ∧
      (e.process 1 parcel).tree.Copies 1 ["parcel"]
        (alone.run (some (.object [("box", sized (.num (.int 3)))]))).tree) ∧
    (∃ hooks, MapsItems alone [sized (.num (.int 3)), sized (.str "big")] 1 boxes
      (inspect hooks 1 boxes)) ∧
    ∃ hooks, MapsMember alone "box" [("box", sized (.num (.int 3)))] 1 parcel
      (inspect hooks 1 parcel) := by
  obtain ⟨hanywhere, hitems, hmember⟩ := processed_alone silent_measured
  have hboxes : Fresh 1 boxes { value := _, parent := some 0, segment := some "boxes" } :=
    ⟨.attach (.fresh none) (by decide) _ _, rfl, rfl, rfl⟩
  have hparcel : Fresh 1 parcel { value := _, parent := some 0, segment := some "parcel" } :=
    ⟨.attach (.fresh none) (by decide) _ _, rfl, rfl, rfl⟩
  have hpath : parcel.tree.pathOf 1 = ["parcel"] := by decide +kernel
  have hcompiles : (∃ e n, Mapper.standard.compileChain measured (some "parcel") 7 = .ok (e, n)) ∧
      (∃ e n, Mapper.standard.compileChain (.ofKind (.array (some measured)) Registry.empty)
        none 0 = .ok (e, n)) ∧ ∃ e n, Mapper.standard.compileChain boxed none 0 = .ok (e, n) :=
    ⟨⟨_, _, by cbv⟩, ⟨_, _, by cbv⟩, ⟨_, _, by cbv⟩⟩
  obtain ⟨⟨e, n, he⟩, ⟨list, _, hlist⟩, object, _, hobject⟩ := hcompiles
  obtain ⟨alone, halone, hsame⟩ := hanywhere _ _ _ _ he
  obtain ⟨alone', _, hooks, halone', -, hmaps⟩ := hitems _ _ _ _ _ _ _ hlist
  obtain ⟨alone'', _, hooks', halone'', -, hmaps'⟩ := hmember _ "box" _ _ _ _ _ _ _ rfl hobject
  obtain rfl := Except.ok.inj (halone.symm.trans halone')
  obtain rfl := Except.ok.inj (halone.symm.trans halone'')
  refine ⟨silent_measured, alone, halone, ⟨e, ⟨n, he⟩, hpath ▸ (hsame 1 parcel _ hparcel).1⟩,
    ⟨hooks, hmaps 1 boxes _ _ hboxes rfl⟩, hooks', hmaps' 1 parcel _ _ hparcel rfl⟩

end Run

end Intake
