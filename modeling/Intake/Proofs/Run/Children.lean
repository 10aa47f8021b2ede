import Intake.Proofs.Run.Yields
import Intake.Proofs.Value
/-!
# Children that tell

The two loops of a run process the children of a tracker one after the other.  Each step adds a
child that tells what its entity has made of it, and leaves the others as they are
(`Family.process`); in the end all do.  So every compiled entity yields what it makes, and after a
whole run the tree tells all:

    m.compile c = .ok e → Told (e.run input).tree e { value := input } root
-/

namespace Intake

open Run TrackerTree

/-! ## One more child -/

section

variable {e member : Entity} {id c : TrackerId} {raw : String → Option Value}
  {done : String → Prop} {t₀ : TrackerTree} {r : Run} {k : Tracker} {s : String}

/-- A child is processed. -/
theorem Family.process (h : Family e id raw done t₀ r.tree k) (hnew : t₀.size ≤ c)
    (hc : r.tree.child? id s = some c)
    (hbare : r.tree.get? c = some { value := raw s, parent := some id, segment := some s })
    (hm : e.child? s = some member) (hmember : Yields member member.process member.Makes) :
    Family e id raw (fun s' => done s' ∨ s' = s) t₀ (member.process c r).tree k ∧
      ∀ s', done s' → s' ≠ s →
        (member.process c r).tree.parts id raw s' = r.tree.parts id raw s' := by
  have hl := h.grows.linked
  have hlt := hl.child_lt hc
  have hid : id < r.tree.size := lt_size_of_get? h.get
  obtain ⟨raw', l', hmade, hfamily⟩ := hmember c r _ ⟨hl, hbare, rfl, rfl⟩
  have hg := hfamily.grows
  have hnone : ∀ s', r.tree.child? c s' = none := fun s' => child?_of_get? hbare s'
  have hchild : ∀ s', (member.process c r).tree.child? id s' = r.tree.child? id s' :=
    hg.child?_eq hid (Nat.ne_of_lt hlt)
  -- the other children are not below this one
  have hother : ∀ {s' d m}, s' ≠ s → r.tree.child? id s' = some d → done s' →
      e.child? s' = some m →
      Told (member.process c r).tree m
          { value := raw s', parent := some id, segment := some s' } d ∧
        (member.process c r).tree.hasIssuesBelow d = r.tree.hasIssuesBelow d :=
    fun hne hd hs hm' =>
      (h.told hs hd hm').frame hl hg (hl.not_below_sibling hd hc hne)
  refine ⟨⟨h.grows.trans hg (.inr hnew), (hg.frame hid (Nat.ne_of_lt hlt)).trans h.get, h.nodup,
    fun hd => h.known ((hchild _).symm.trans hd), fun {s' d m} hs hd hm' => ?_,
    fun {y} hle hy => ?_⟩, fun s' hs hne => parts_eq (hchild s') fun d hd => ⟨?_, ?_⟩⟩
  · rw [hchild] at hd
    by_cases hne : s' = s
    · subst hne
      obtain rfl := Option.some.inj (hc.symm.trans hd)
      obtain rfl := Option.some.inj (hm.symm.trans hm')
      exact hfamily.all hmade
    · exact (hother hne hd (hs.resolve_right hne) hm').1
  · rcases Nat.lt_or_ge y r.tree.size with hlt' | hge
    · exact (h.below hle hlt').mono fun z s w hw => hg.child?_mono hnone hw
    · exact (hfamily.below hge hy).head ((hchild s).trans hc)
  · obtain ⟨m, hm'⟩ := h.known hd
    exact (hother hne hd hs hm').2
  · refine hg.value?_eq (hl.child_lt_size hd) ?_
    rintro rfl
    exact hne (hl.child?_inj hd hc).2

/-- One more item is attached and processed. -/
theorem Family.item (h : Family e id raw (fun _ => True) t₀ r.tree k) {i : Nat}
    (hm : e.child? (toString i) = some member)
    (hmember : Yields member member.process member.Makes)
    (hs : toString i ∉ Table.names k.children) {v : Value} (hraw : raw (toString i) = some v) :
    Family e id raw (fun _ => True) t₀ (itemRun member id i v r).tree
        { k with children := Table.put (toString i) r.tree.size k.children } ∧
      (itemRun member id i v r).tree.child? id (toString i) = some r.tree.size ∧
      ∀ s', s' ≠ toString i →
        (itemRun member id i v r).tree.parts id raw s' = r.tree.parts id raw s' := by
  have hid : id < r.tree.size := lt_size_of_get? h.get
  obtain ⟨hattached, hparts⟩ := h.attach hm hs (some v)
  have hc : (r.tree.attach id (toString i) (some v)).2.child? id (toString i) = some r.tree.size :=
    (child?_attach hid _ _ _).trans (if_pos rfl)
  have hbare : (r.tree.attach id (toString i) (some v)).2.get? r.tree.size =
      some { value := raw (toString i), parent := some id, segment := some (toString i) } := by
    rw [hraw]
    exact get?_attach_size hid _ _
  obtain ⟨hfamily, hsame⟩ := Family.process
    (r := { r with tree := (r.tree.attach id (toString i) (some v)).2 }) hattached h.grows.size hc
    hbare hm hmember
  refine ⟨hfamily.mono fun {s' _} _ _ => ?_, ?_, fun s' hne => ?_⟩
  · exact (eq_or_ne s' (toString i)).symm
  · exact (child?_of_get? hfamily.get _).trans ((child?_of_get? hattached.get _).symm.trans hc)
  · exact (hsame s' hne hne).trans (hparts s' hne)

end

/-! ## Lists -/

theorem toString_ne {i j : Nat} (h : i ≠ j) : toString i ≠ toString j :=
  fun he => h (Nat.repr_inj.1 he)

/-- The items from the index `i` on.  What is returned is what the children have in the end. -/
theorem Family.items {e items : Entity} {id : TrackerId} {values : List Value} {t₀ : TrackerTree}
    (he : ∀ s, e.child? s = some items) (hitems : Yields items items.process items.Makes) :
    ∀ (rest : List Value) (i : Nat) (r : Run) (k : Tracker), values.drop i = rest →
      Family e id (Value.list values).under? (fun _ => True) t₀ r.tree k →
      Table.names k.children = (List.range i).map toString →
      let out := runItems items.process id i rest r
      let parts := out.2.2.tree.parts id (Value.list values).under?
      (∃ children, Family e id (Value.list values).under? (fun _ => True) t₀ out.2.2.tree
          { k with children } ∧
        Table.names children = (List.range (i + rest.length)).map toString) ∧
        (∀ j < i, parts (toString j) =
          r.tree.parts id (Value.list values).under? (toString j)) ∧
        out.1 = (List.range' i rest.length).map (fun j => (parts (toString j)).value.getD .null) ∧
        out.2.1 = (List.range' i rest.length).filter fun j => (parts (toString j)).failing
  | [], i, r, k, _, h, hnames => ⟨⟨k.children, h, hnames⟩, fun _ _ => rfl, rfl, rfl⟩
  | v :: rest, i, r, k, hrest, h, hnames => by
    intro out parts
    have hv : values[i]? = some v := by
      rw [← List.head?_drop, hrest, List.head?_cons]
    have hs : toString i ∉ Table.names k.children := by
      rw [hnames]
      intro hmem
      obtain ⟨j, hj, he⟩ := List.mem_map.1 hmem
      exact toString_ne (Nat.ne_of_lt (List.mem_range.1 hj)) he
    obtain ⟨hfamily, hc, hsame⟩ :=
      h.item (he _) hitems hs ((Value.under?_list values i).trans hv)
    have hnames' : Table.names (Table.put (toString i) r.tree.size k.children) =
        (List.range (i + 1)).map toString := by
      rw [Table.names_put_of_not_mem _ _ _ hs, hnames, List.range_succ, List.map_append,
        List.map_singleton]
    have hdrop : values.drop (i + 1) = rest := by
      rw [← List.tail_drop, hrest, List.tail_cons]
    obtain ⟨⟨children, hall, hlast⟩, hkept, houts, hfailing⟩ :=
      Family.items he hitems rest (i + 1) _ _ hdrop hfamily hnames'
    -- the item keeps what it had when it was left
    have hhere : parts (toString i) =
        { raw := (Value.list values).under? (toString i)
          failing := (itemRun items id i v r).tree.hasIssuesBelow r.tree.size
          value := (itemRun items id i v r).tree.value? r.tree.size } := by
      refine (hkept i (Nat.lt_succ_self i)).trans ?_
      rw [TrackerTree.parts, hc]
      rfl
    refine ⟨⟨children, hall, ?_⟩, fun j hj => ?_, ?_, ?_⟩
    · rw [hlast, List.length_cons, Nat.add_right_comm, Nat.add_assoc]
    · exact (hkept j (Nat.lt_succ_of_lt hj)).trans (hsame _ (toString_ne (Nat.ne_of_lt hj)))
    · rw [List.length_cons, List.range'_succ, List.map_cons, hhere]
      exact congrArg (List.cons _) houts
    · rw [List.length_cons, List.range'_succ, List.filter_cons, hhere]
      exact congrArg (fun rest =>
        if (itemRun items id i v r).tree.hasIssuesBelow r.tree.size then i :: rest else rest)
          hfailing

/-- The items of a list are processed, and the list is put together again. -/
theorem Yields.items {e items : Entity} (he : ∀ s, e.child? s = some items)
    (hitems : Yields items items.process items.Makes) (values : List Value) :
    Yields e (fun id r =>
        let (outs, failing, r) := runItems items.process id 0 values (r.setValue id none)
        let r := r.setValue id (some (.list outs))
        if failing.isEmpty then r
        else r.record id (.of "array/items" [("indexes", .list (failing.map .ofNat))]))
      fun parts k l => Table.names l.children = (List.range values.length).map toString ∧
        (∀ i < values.length, (parts (toString i)).raw = values[i]?) ∧
        l = listed parts values.length { k with children := l.children } := by
  intro id r k hk
  have hfirst : Family e id (Value.list values).under? (fun _ => True) r.tree r.tree k :=
    .bare hk.linked hk.get hk.children
  obtain ⟨_, rfl, hempty, -⟩ := hfirst.applies (.setValue none)
  have hnames : Table.names (k.setValue none).children = (List.range 0).map toString := by
    rw [show (k.setValue none).children = [] from hk.children]
    rfl
  obtain ⟨⟨children, hall, hlast⟩, -, houts, hfailing⟩ :=
    Family.items he hitems values 0 (r.setValue id none) _ List.drop_zero hempty hnames
  dsimp only
  generalize runItems items.process id 0 values (r.setValue id none) = out at *
  obtain ⟨_, ⟨_, rfl, rfl⟩, hfamily, hparts⟩ := hall.applies
    (.seq (.setValue (some (.list out.1))) (.naming "array/items" "indexes" out.2.1 .ofNat))
  refine ⟨(Value.list values).under?, _, ⟨?_, fun i _ => Value.under?_list values i, ?_⟩, hfamily⟩
  · rw [← Nat.zero_add values.length]
    exact hlast
  · rw [show (_ : TrackerTree).parts id _ = _ from hparts]
    simp only [listed, Tracker.setValue, houts, hfailing, List.range_eq_range']

/-- A list with a chain for its items. -/
theorem Yields.list {e items : Entity} (he : ∀ s, e.child? s = some items)
    (hitems : Yields items items.process items.Makes) :
    Yields e (inspectList (some items.process)) (Change.inspects · (.array (some items))) := by
  refine read fun v => ?_
  by_cases hlist : ∃ values, v = some (.list values)
  · obtain ⟨values, rfl⟩ := hlist
    refine ⟨_, fun id r hv => ?_, congr (Yields.items he hitems values) fun parts k l h hv => ?_⟩
    · exact inspectList_of_list hv
    · exact (Change.inspects_list hv).2 h
  · refine ⟨fun id r => r.record id (.of "array/type" []), fun id r hv => ?_,
      congr (of_applies (.record _)) fun parts k l h hv => ?_⟩
    · exact inspectList_refuses (hv ▸ hlist)
    · exact (Change.inspects_no_list (hv ▸ hlist)).2 h

/-! ## Objects -/

/-- The members of the children that are there, without those of other names. -/
theorem failingMembers_memberChildren (t : TrackerTree) (id : TrackerId)
    (raw : String → Option Value) (names : List String) :
    failingMembers t (memberChildren t id names) =
      names.filter fun name => (t.parts id raw name).failing := by
  induction names with
  | nil => rfl
  | cons name rest ih =>
    unfold memberChildren failingMembers at ih ⊢
    rw [List.filterMap_cons, List.filter_cons, ← ih]
    have hfailing : (t.parts id raw name).failing =
        ((t.get? id).bind (·.child? name)).any t.hasIssuesBelow := rfl
    rw [hfailing]
    cases (t.get? id).bind (·.child? name) with
    | none => rfl
    | some c =>
      simp only [Option.map_some, List.filter_cons, Option.any_some]
      split <;> rfl

theorem memberValues_memberChildren (t : TrackerTree) (id : TrackerId)
    (raw : String → Option Value) (names : List String) :
    memberValues t (memberChildren t id names) =
      names.filterMap fun name => (t.parts id raw name).value.map (name, ·) := by
  unfold memberChildren memberValues
  rw [List.filterMap_filterMap]
  refine List.filterMap_congr fun name _ => ?_
  have hvalue : (t.parts id raw name).value =
      ((t.get? id).bind (·.child? name)).bind t.value? := rfl
  rw [hvalue]
  cases (t.get? id).bind (·.child? name) <;> rfl

/-- Attaching adds the names of the members to those of the children. -/
theorem get?_attachMembers {id : TrackerId} (input : List (String × Value)) :
    ∀ (names : List String) {t : TrackerTree} {k : Tracker}, t.get? id = some k →
      (Table.names k.children ++ names).Nodup →
      ∃ children, (attachMembers id names input t).get? id = some { k with children } ∧
        Table.names children = Table.names k.children ++ names
  | [], t, k, hk, _ => ⟨k.children, hk, (List.append_nil _).symm⟩
  | name :: rest, t, k, hk, hnodup => by
    have hname : name ∉ Table.names k.children := fun hmem =>
      (List.nodup_append.1 hnodup).2.2 name hmem name List.mem_cons_self rfl
    have hput : Table.names (Table.put name t.size k.children) = Table.names k.children ++ [name] :=
      Table.names_put_of_not_mem _ _ _ hname
    have hnext : (t.attach id name (Value.lookup? name input)).2.get? id =
        some { k with children := Table.put name t.size k.children } := by
      rw [get?_attach_parent (lt_size_of_get? hk), hk, Option.map_some]
    obtain ⟨children, hget, hnames⟩ := get?_attachMembers input rest hnext
      (by rw [hput, List.append_assoc]; exact hnodup)
    refine ⟨children, hget, ?_⟩
    rw [hnames, hput, List.append_assoc]
    rfl

/-- The members of an object are attached, and none has been processed. -/
theorem Family.members {e : Entity} {id : TrackerId} {names : List String}
    {input : List (String × Value)} {t₀ t : TrackerTree} {k : Tracker}
    (h : Family e id (Value.object input).under? (fun _ => True) t₀ t k) (hk : k.children = [])
    (hsize : t.size = t₀.size) (hnames : names.Nodup)
    (hknown : ∀ name ∈ names, ∃ member, e.child? name = some member) :
    ∃ children, Family e id (Value.object input).under? (fun _ => False) t₀
        (attachMembers id names input t) { k with children } ∧ Table.names children = names := by
  have hid := lt_size_of_get? h.get
  have hattached : Attached id names input t (attachMembers id names input t) :=
    attached_attachMembers names h.grows.linked hid
  obtain ⟨children, hget, hchildren⟩ := get?_attachMembers input names h.get
    (by simpa [hk, Table.names] using hnames)
  have hchildren : Table.names children = names := by simpa [hk, Table.names] using hchildren
  refine ⟨children, ⟨h.grows.trans hattached.grows (.inl rfl), hget, ?_, fun {s c} hc => ?_,
    fun hs => hs.elim, fun {y} hle hlt => ?_⟩, hchildren⟩
  · exact hchildren.symm ▸ hnames
  · rw [child?_of_get? hget] at hc
    exact hknown s (hchildren ▸ Table.mem_names_of_get? hc)
  · obtain ⟨name, -, hc⟩ := hattached.all hnames y (hsize.le.trans hle) hlt
    exact .child hc

/-- An object is put together again from what its members have in the end. -/
theorem Family.assemble {e : Entity} {id : TrackerId} {raw : String → Option Value}
    {t₀ : TrackerTree} {r : Run} {k : Tracker}
    (h : Family e id raw (fun _ => True) t₀ r.tree k) (policy : UnknownKeys) (names : List String)
    (input : List (String × Value)) :
    let r' := assemble policy names (input.filter fun m => !names.contains m.1) id r
    Family e id raw (fun _ => True) t₀ r'.tree
      (assembled (r'.tree.parts id raw) policy names input k) := by
  unfold Run.assemble
  dsimp only
  generalize hfailing : failingMembers r.tree (memberChildren r.tree id names) = failing
  generalize hknown : memberValues r.tree (memberChildren r.tree id names) = known
  rw [failingMembers_memberChildren r.tree id raw] at hfailing
  rw [memberValues_memberChildren r.tree id raw] at hknown
  generalize hunknown : (input.filter fun m => !names.contains m.1) = unknown
  generalize houtput : (if policy = .allow then known ++ unknown else known) = output
  generalize hrejected : (if policy = .forbid then unknown.map (·.1) else []) = rejected
  obtain ⟨l, ⟨_, ⟨_, rfl, rfl⟩, rfl⟩, hfamily, hparts⟩ := h.applies
    (.seq (.seq (.setValue (some (.ofMembers output)))
      (.naming "object/members" "fields" failing .str))
      (.naming "object/unknown-keys" "keys" rejected .str))
  have houtput' : outputOf (r.tree.parts id raw) policy names input = output := by
    rw [← houtput, ← hknown, ← hunknown]
    exact (outputOf_eq _ policy names input).symm
  have hrejected' : rejectedBy policy names input = rejected := by
    rw [rejectedBy, ← hrejected, ← hunknown]
  have hlast : assembled (r.tree.parts id raw) policy names input k =
      { (k.setValue (some (.ofMembers output))) with
        issues := k.issues ++ naming "object/members" "fields" (failing.map .str) ++
          naming "object/unknown-keys" "keys" (rejected.map .str) } := by
    rw [assembled, houtput', hrejected', hfailing]
    rfl
  rw [← hparts] at hlast
  exact hlast ▸ hfamily

section Members

variable {e : Entity} {own : Option String} {members : List (String × Entity)}
  {schedule : Schedule String} {escaping : List Path}

/-- The schedule processes every member, each at the child that was attached for it. -/
theorem Family.runMembers (he : ∀ s, e.child? s = Table.get? members s)
    (hs : schedule.Arranges own (members.map fun m => (m.1, m.2.references)) escaping)
    (harranged : ∀ m ∈ members, Entity.Arranged (some m.1) m.2)
    (hmembers : ∀ m ∈ members, Yields m.2 m.2.process m.2.Makes) {input : List (String × Value)}
    {id : TrackerId} {t₀ : TrackerTree} {r₀ r₁ : Run} {k : Tracker}
    (h : Family e id (Value.object input).under? (fun _ => False) t₀ r₁.tree k)
    (hchildren : Table.names k.children = members.map (·.1))
    (hattached : Attached id (members.map (·.1)) input r₀.tree r₁.tree)
    (hstart : Advances id r₀ r₁) (hsize : t₀.size ≤ r₀.tree.size) :
    Family e id (Value.object input).under? (fun _ => True) t₀
      (runSchedule schedule (Entity.memberStages members) id r₁).tree k := by
  -- each member finds its child as it was attached
  have hstep : ∀ {done : List String} {name : String} {member : Entity} {c : TrackerId} {r : Run},
      name ∉ done → Table.get? members name = some member → r₁.tree.child? id name = some c →
      Ongoing id r₀ r₁ done r →
      Family e id (Value.object input).under? (· ∈ done) t₀ r.tree k →
      Family e id (Value.object input).under? (· ∈ done ++ [name]) t₀
        (member.process c r).tree k := by
    intro done name member c r hname hm hc hongoing hfamily
    have hmem := Table.mem_of_get? hm
    obtain ⟨c', hc', hle, hget⟩ := hattached.child name (List.mem_map.2 ⟨_, hmem, rfl⟩)
    obtain rfl := Option.some.inj (hc'.symm.trans hc)
    have hbare := (hongoing.pending hname hc).trans hget
    obtain ⟨hnext, -⟩ := Family.process hfamily (hsize.trans hle)
      ((hongoing.child?_eq name).trans hc) hbare ((he name).trans hm) (hmembers _ hmem)
    refine hnext.mono fun {s _} _ hs => ?_
    rcases List.mem_append.1 hs with hs | hs
    · exact .inl hs
    · exact .inr (List.mem_singleton.1 hs)
  obtain ⟨done, hdone, -, hall⟩ := runSchedule_ongoing
    (Q := fun done r => Family e id (Value.object input).under? (· ∈ done) t₀ r.tree k)
    hs hattached (Nat.le_refl _) hstart (fun m hm => Entity.process_advances (harranged m hm))
    (fun hname _ hm hc hongoing hfamily => hstep hname hm hc hongoing hfamily)
    (h.mono fun _ hs => absurd hs List.not_mem_nil)
  refine hall.mono fun {s c} hc _ => (hdone s).2 ?_
  rw [child?_of_get? hall.get] at hc
  exact hchildren ▸ Table.mem_names_of_get? hc

/-- The members of an object are processed, and the object is put together again. -/
theorem Yields.ofMembers (he : ∀ s, e.child? s = Table.get? members s)
    (hs : schedule.Arranges own (members.map fun m => (m.1, m.2.references)) escaping)
    (harranged : ∀ m ∈ members, Entity.Arranged (some m.1) m.2)
    (hmembers : ∀ m ∈ members, Yields m.2 m.2.process m.2.Makes) (policy : UnknownKeys)
    (input : List (String × Value)) :
    Yields e (fun id r =>
        andThen (runSchedule schedule (Entity.memberStages members))
          (assemble policy (members.map (·.1))
            (input.filter fun m => !(members.map (·.1)).contains m.1)) id
          ((r.setValue id none).mapTree (attachMembers id (members.map (·.1)) input)))
      fun parts k l => Table.names l.children = members.map (·.1) ∧
        (∀ m ∈ members, (parts m.1).raw = Value.lookup? m.1 input) ∧
        l = assembled parts policy (members.map (·.1)) input { k with children := l.children } := by
  intro id r k hk
  have hfirst : Family e id (Value.object input).under? (fun _ => True) r.tree r.tree k :=
    .bare hk.linked hk.get hk.children
  obtain ⟨_, rfl, hempty, -⟩ := hfirst.applies (.setValue none)
  have hsize : (r.setValue id none).tree.size = r.tree.size := size_update _ _
  have hknown : ∀ name ∈ members.map (·.1), ∃ member, e.child? name = some member := by
    intro name hname
    obtain ⟨member, hm, -⟩ := exists_entity hname
    exact ⟨member, (he name).trans hm⟩
  obtain ⟨children, hattach, hchildren⟩ :=
    hempty.members (k := k.setValue none) hk.children hsize hs.nodup_members hknown
  have hattached : Attached id (members.map (·.1)) input (r.setValue id none).tree _ :=
    attached_attachMembers (members.map (·.1)) hempty.grows.linked (lt_size_of_get? hempty.get)
  dsimp only
  -- `r₁` has the children, and none of them has been processed
  generalize hr₁ : (r.setValue id none).mapTree (attachMembers id (members.map (·.1)) input) = r₁
  have htree₁ : attachMembers id (members.map (·.1)) input (r.setValue id none).tree = r₁.tree := by
    rw [← hr₁]
    rfl
  rw [htree₁] at hattach hattached
  have hstart : Advances id (r.setValue id none) r₁ :=
    .of_grows hattached.grows (by rw [← hr₁]; rfl)
  have hall := hattach.runMembers he hs harranged hmembers hchildren hattached hstart hsize.ge
  rw [andThen]
  generalize runSchedule schedule (Entity.memberStages members) id r₁ = r₂ at hall ⊢
  have hissues : r₂.hasIssues id = false := (hasIssues_of_get? hall.get).trans hk.issues
  have hlast := hall.assemble policy (members.map (·.1)) input
  rw [hissues, if_neg Bool.false_ne_true]
  exact ⟨(Value.object input).under?, _, ⟨hchildren, fun _ _ => rfl, rfl⟩, hlast⟩

/-- An object. -/
theorem Yields.object (he : ∀ s, e.child? s = Table.get? members s)
    (hs : schedule.Arranges own (members.map fun m => (m.1, m.2.references)) escaping)
    (harranged : ∀ m ∈ members, Entity.Arranged (some m.1) m.2)
    (hmembers : ∀ m ∈ members, Yields m.2 m.2.process m.2.Makes) (policy : UnknownKeys) :
    Yields e (inspectObject (Entity.memberStages members) schedule policy)
      (Change.inspects · (.object members schedule policy escaping)) := by
  refine read fun v => ?_
  by_cases hobject : ∃ input, v = some (.object input)
  · obtain ⟨input, rfl⟩ := hobject
    refine ⟨_, fun id r hv => ?_,
      congr (Yields.ofMembers he hs harranged hmembers policy input) fun parts k l h hv => ?_⟩
    · exact inspectObject_of_object hv
    · exact (Change.inspects_object hv).2 h
  · refine ⟨fun id r => r.record id (.of "object/type" []), fun id r hv => ?_,
      congr (of_applies (.record _)) fun parts k l h hv => ?_⟩
    · exact inspectObject_refuses (hv ▸ hobject)
    · exact (Change.inspects_no_object (hv ▸ hobject)).2 h

end Members

/-! ## The main result -/

theorem pathOf_ofValue (value : Option Value) : (TrackerTree.ofValue value).pathOf root = [] := by
  have hl := linked_ofValue value
  have henclosing : (TrackerTree.ofValue value).enclosing root = [] :=
    List.eq_nil_iff_forall_not_mem.2 fun x hx => Nat.not_lt_zero x (hl.enclosing_lt hx)
  have hlt : root < (TrackerTree.ofValue value).size := Nat.one_pos
  rw [pathOf, hl.outward_eq hlt, henclosing]
  rfl

/-- The kinds without items and members have no children to look at. -/
theorem Yields.single {e : Entity} {pipeline : Pipeline} {hooks : Hooks}
    (h : Entity.Single (.behaviour pipeline hooks)) :
    Yields e (Entity.inspect hooks) (Change.inspects · hooks) := by
  refine congr (of_applies (.inspect h fun _ => ⟨none, false, none⟩)) fun parts k l hkl => ?_
  cases hooks with
  | array items =>
    cases items with
    | none => exact hkl
    | some items => exact h.elim
  | object members schedule policy escaping => exact h.elim
  | _ => exact hkl

namespace Entity

/-- A compiled entity yields what it makes. -/
theorem process_yields {own : Option String} {e : Entity} (h : Arranged own e) :
    Yields e e.process e.Makes := by
  induction h with
  | single hr hb =>
    refine .process (.substitute hr) (.behave fun pipeline hooks h => ?_)
    subst h
    exact .single hb
  | array hr hi ih =>
    refine .process (.substitute hr) (.behave fun pipeline hooks h => ?_)
    obtain ⟨rfl, rfl⟩ := Body.behaviour.inj h
    exact .list (fun _ => rfl) ih
  | object hr hs hm ih =>
    refine .process (.substitute hr) (.behave fun pipeline hooks h => ?_)
    obtain ⟨rfl, rfl⟩ := Body.behaviour.inj h
    exact .object (fun _ => rfl) hs hm ih _

/-- After a run the tree tells what became of the root, and every tracker is below it. -/
theorem run_told {own : Option String} {e : Entity} (h : Arranged own e) (input : Option Value) :
    (e.run input).tree.Linked ∧ Told (e.run input).tree e { value := input } root ∧
      (e.run input).tree.pathOf root = [] ∧
      ∀ x < (e.run input).tree.size, (e.run input).tree.Below root x := by
  have hl := linked_ofValue input
  have hbare : Bare root (.ofValue input) { value := input } := ⟨hl, rfl, rfl, rfl⟩
  obtain ⟨raw, l, hmade, hfamily⟩ := process_yields h root _ _ hbare
  refine ⟨hfamily.grows.linked, hfamily.all hmade, ?_, fun x hx => ?_⟩
  · exact (hfamily.grows.pathOf_eq hl Nat.one_pos).trans (pathOf_ofValue input)
  · rcases Nat.eq_zero_or_pos x with rfl | hpos
    · exact .refl _ _
    · exact hfamily.below hpos hx

/-- The address of a tracker leads to it. -/
theorem follow_pathOf {own : Option String} {e : Entity} (h : Arranged own e)
    (input : Option Value) {id : TrackerId} (hid : id < (e.run input).tree.size) :
    (e.run input).tree.follow root ((e.run input).tree.pathOf id) = some id := by
  obtain ⟨hl, -, hroot, hbelow⟩ := run_told h input
  obtain ⟨segments, hf⟩ := hbelow id hid
  rw [hl.pathOf_follow hf, hroot, List.nil_append]
  exact hf

/-- Every tracker of a run is told with the entity of its address; it began with the part of the
input at that address, if the entities hand on what they are given. -/
theorem run_tracker {own : Option String} {e : Entity} (h : Arranged own e) (input : Option Value)
    {id : TrackerId} (hid : id < (e.run input).tree.size) :
    ∃ inner k, e.at? ((e.run input).tree.pathOf id) = some inner ∧ k.Untouched ∧
      Told (e.run input).tree inner k id ∧
      (e.Throughout HandsOn → k.value = input.bind (·.at? ((e.run input).tree.pathOf id))) := by
  obtain ⟨-, htold, -, -⟩ := run_told h input
  exact htold.follow ⟨rfl, rfl, rfl⟩ (follow_pathOf h input hid)

end Entity

end Intake
