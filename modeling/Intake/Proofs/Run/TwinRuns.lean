import Intake.Proofs.Run.Growth
import Intake.Proofs.Tracker.Twin
/-!
# Twin runs

An entity that processes paired trackers of twin trees leaves twin trees behind, with the new
trackers paired too, provided that none of its look-ups enters at the root through a tainted
name:

    Arranged own e → Mirrors tainted own e

`Screened` is handed on to items and members as `Scoped` is for finished reads, with less to
show: where a look-up enters, and not where it ends.
-/

namespace Intake

namespace Run

open Entity TrackerTree

variable {tainted : String → Prop} {ρ₀ : TrackerId → TrackerId → Prop} {i j : TrackerId}
  {r₀ r s : Run}

/-- Two runs on the trackers `i` and `j`, which `ρ₀` pairs, after the first has come from `r₀`. -/
def Paired (tainted : String → Prop) (ρ₀ : TrackerId → TrackerId → Prop) (i : TrackerId)
    (r₀ r s : Run) : Prop :=
  Advances i r₀ r ∧ ∃ ρ, (∀ a b, ρ₀ a b → ρ a b) ∧ Twin tainted ρ r.tree s.tree

theorem Clear.advance {path : Path} (h : Clear tainted r.tree i path) {r' : Run}
    (hl : r.tree.Linked) (hi : i < r.tree.size) (ha : Advances i r r') :
    Clear tainted r'.tree i path := by
  intro first hfirst ht
  rw [ha.grows.entry?_eq hl hi]
  exact h first hfirst ht

theorem Paired.agrees (hl : r₀.tree.Linked) (hi : i < r₀.tree.size) (hij : ρ₀ i j)
    {paths : List Path} (hclear : ∀ path ∈ paths, Clear tainted r₀.tree i path) :
    Agrees paths i j (Paired tainted ρ₀ i r₀) where
  value := fun ⟨_, _, hρ, ht⟩ => ht.value?_eq (hρ i j hij)
  issues := fun ⟨_, _, hρ, ht⟩ => ht.hasIssues_eq (hρ i j hij)
  touch := fun hf ⟨ha, ρ, hρ, ht⟩ =>
    ⟨ha.trans (.touch ha.grows.linked i hf) (.inl rfl), ρ, hρ, ht.update (hρ i j hij) hf⟩
  note := fun he _ ⟨ha, ρ, hρ, ht⟩ =>
    ⟨ha.trans (.note ha.grows.linked he) (.inl rfl), ρ, hρ, ht⟩
  tally := by
    rintro n r r' s s' ⟨hrt, hre, -⟩ ⟨hst, -⟩ ⟨ha, ρ, hρ, ht⟩
    refine ⟨(Advances.keeps [] i r₀).tally hrt hre ha, ρ, hρ, ?_⟩
    rwa [hrt, hst]
  lookUp := by
    rintro path r s hpath ⟨ha, ρ, hρ, ht⟩
    have hpath := Clear.advance (hclear path hpath) hl hi ha
    exact ⟨ht.lookUp_eq (hρ i j hij) hpath, ha.trans (.note ha.grows.linked rfl) (.inl rfl),
      ρ, hρ, ht⟩

/-! ## Where look-ups enter -/

/-- How an entity stands among those around it: a name of its own is that of its tracker, and not
tainted at the root, and no look-up enters at the root through a tainted name. -/
structure Screened (tainted : String → Prop) (own : Option String) (e : Entity)
    (i : TrackerId) (t : TrackerTree) : Prop where
  named : ∀ s, own = some s → ∃ p, t.child? p s = some i ∧ (p = root → ¬ tainted s)
  clear : ∀ path ∈ e.references, Clear tainted t i path

theorem Screened.advance {own : Option String} {e : Entity} {r' : Run}
    (h : Screened tainted own e i r.tree) (hl : r.tree.Linked) (hi : i < r.tree.size)
    (ha : Advances i r r') : Screened tainted own e i r'.tree := by
  refine ⟨fun s hs => ?_, fun path hpath => Clear.advance (h.clear path hpath) hl hi ha⟩
  obtain ⟨p, hp, hroot⟩ := h.named s hs
  have hlt := hl.child_lt hp
  refine ⟨p, ?_, hroot⟩
  rw [ha.grows.child?_eq (Nat.lt_trans hlt hi) (Nat.ne_of_lt hlt), hp]

theorem Screened.item {own : Option String} {n : Nat} {source : Chain}
    {resolver : Option Entity} {pipeline : Pipeline} {items : Entity} {t : TrackerTree}
    {c : TrackerId} {s : String}
    (h : Screened tainted own (.mk n source resolver (.behaviour pipeline (.array (some items)))) i
      t)
    (hl : t.Linked) (hi : i ≠ root) (hc : t.child? i s = some c) :
    Screened tainted none items c t := by
  refine ⟨by simp, fun path hpath first hfirst ht hentry => ?_⟩
  have hmem : path ∈ references
      (.mk n source resolver (.behaviour pipeline (.array (some items)))) := by
    simp [references, bodyReferences, hookReferences, mem_distinct, hpath]
  rw [hl.entry?_child hc] at hentry
  split at hentry
  · exact hi (Option.some.inj hentry)
  · exact h.clear path hmem first hfirst ht hentry

/-- A member of an object that is not the root. -/
theorem Screened.member {own : Option String} {n : Nat} {source : Chain}
    {resolver : Option Entity} {pipeline : Pipeline} {members : List (String × Entity)}
    {schedule : Schedule String} {policy : UnknownKeys} {escaping : List Path} {name : String}
    {e : Entity} {t : TrackerTree} {c : TrackerId}
    (h : Screened tainted own (.mk n source resolver
      (.behaviour pipeline (.object members schedule policy escaping))) i t)
    (ha : schedule.Arranges own (members.map fun m => (m.1, m.2.references)) escaping)
    (hl : t.Linked) (hi : i ≠ root) (he : Table.get? members name = some e)
    (hc : t.child? i name = some c)
    (hnames : ∀ other ∈ members.map (·.1), ∃ d, t.child? i other = some d) :
    Screened tainted (some name) e c t := by
  refine ⟨fun s hs => ⟨i, Option.some.inj hs ▸ hc, fun hr => absurd hr hi⟩,
    fun path hpath first hfirst ht hentry => ?_⟩
  obtain ⟨rest, hsegments⟩ := Path.segments_of_first? hfirst
  have hleads := ha.leads he hpath hsegments
  rw [hl.entry?_child hc] at hentry
  split at hentry
  · exact hi (Option.some.inj hentry)
  · next hnone =>
    have hmem : first ∉ members.map (·.1) := by
      intro hmem
      obtain ⟨d, hd⟩ := hnames first hmem
      simp [hd] at hnone
    rcases hleads with rfl | ⟨hfirst, -⟩ | ⟨-, hown, -⟩ | ⟨-, -, hescaping⟩
    · exact hmem (Table.mem_names_of_get? he)
    · exact hmem hfirst
    · obtain ⟨p, hp, hroot⟩ := h.named first hown
      rw [hl.entry?_child hp, hp] at hentry
      exact hroot (Option.some.inj hentry) ht
    · have hpath' : path ∈ references (.mk n source resolver
          (.behaviour pipeline (.object members schedule policy escaping))) := by
        simp [references, bodyReferences, hookReferences, mem_distinct, hescaping]
      exact h.clear path hpath' first hfirst ht hentry

/-- A member of the root. -/
theorem Screened.top {members : List (String × Entity)} {schedule : Schedule String}
    {escaping : List Path} {name : String} {e : Entity} {t : TrackerTree} {c : TrackerId}
    (ha : schedule.Arranges none (members.map fun m => (m.1, m.2.references)) escaping)
    (he : Table.get? members name = some e) (hc : t.child? root name = some c)
    (hname : ¬ tainted name) (hmember : ∀ first, tainted first → first ∈ members.map (·.1))
    (hjoins : ∀ first, tainted first → ¬ Schedule.Joins schedule.edges first name) :
    Screened tainted (some name) e c t := by
  refine ⟨fun s hs => ?_, fun path hpath first hfirst ht hentry => ?_⟩
  · obtain rfl := Option.some.inj hs
    exact ⟨root, hc, fun _ => hname⟩
  · obtain ⟨rest, hsegments⟩ := Path.segments_of_first? hfirst
    rcases ha.leads he hpath hsegments with rfl | ⟨-, hj⟩ | ⟨hmem, -⟩ | ⟨hmem, -⟩
    · exact hname ht
    · exact hjoins first ht hj
    · exact hmem (hmember first ht)
    · exact hmem (hmember first ht)

/-! ## Lists in step -/

/-- The entity leaves twin trees behind, with the pairs that were there and more. -/
def Mirrors (tainted : String → Prop) (own : Option String) (e : Entity) : Prop :=
  ∀ ρ i j r s, Twin tainted ρ r.tree s.tree → ρ i j → Screened tainted own e i r.tree →
    ∃ ρ', (∀ a b, ρ a b → ρ' a b) ∧ Twin tainted ρ' (e.process i r).tree (e.process j s).tree

theorem Paired.item {own : Option String} {n : Nat} {source : Chain} {resolver : Option Entity}
    {pipeline : Pipeline} {items : Entity} (harranged : Arranged none items)
    (ih : Mirrors tainted none items) (hl : r₀.tree.Linked) (hi : i < r₀.tree.size)
    (hij : ρ₀ i j)
    (h₀ : Screened tainted own (.mk n source resolver (.behaviour pipeline (.array (some items)))) i
      r₀.tree)
    (h : Paired tainted ρ₀ i r₀ r s) (m : Nat) (v : Value) :
    Paired tainted ρ₀ i r₀ (itemRun items i m v r) (itemRun items j m v s) ∧
      (itemRun items i m v r).value? r.tree.size = (itemRun items j m v s).value? s.tree.size ∧
      (itemRun items i m v r).tree.hasIssuesBelow r.tree.size =
        (itemRun items j m v s).tree.hasIssuesBelow s.tree.size := by
  obtain ⟨ha, ρ, hρ, ht⟩ := h
  have hi' := ha.lt hi
  have hroot := (ht.inner (hρ i j hij)).1
  have hattach := ht.attach (hρ i j hij) (toString m) (some v)
  have hc := child?_attach hi' (toString m) (some v) (toString m)
  rw [if_pos rfl] at hc
  have hgrow : Advances i r { r with tree := (r.tree.attach i (toString m) (some v)).2 } :=
    .of_grows (.attach ha.grows.linked hi' _ _) rfl
  have hscreened := (h₀.advance hl hi (ha.trans hgrow (.inl rfl))).item hattach.linked.1 hroot hc
  obtain ⟨ρ', hρ', ht'⟩ := ih _ _ _ _ { s with tree := (s.tree.attach j (toString m) (some v)).2 }
    hattach (.inr ⟨rfl, rfl⟩) hscreened
  have hpair : ρ' r.tree.size s.tree.size := hρ' _ _ (.inr ⟨rfl, rfl⟩)
  refine ⟨⟨?_, ρ', fun a b hab => hρ' a b (.inl (hρ a b hab)), ht'⟩, ht'.value?_eq hpair,
    ht'.hasIssuesBelow_eq hpair⟩
  exact (ha.trans hgrow (.inl rfl)).trans
    (process_advances harranged hgrow.grows.linked (hattach.linked.1.child_lt_size hc))
    (.inr ha.grows.size)

/-- Items in step come out the same. -/
theorem runItems_agrees {Rel : Run → Run → Prop} {items items' : Entity}
    (step : ∀ m v r s, Rel r s → Rel (itemRun items i m v r) (itemRun items' j m v s) ∧
      (itemRun items i m v r).value? r.tree.size = (itemRun items' j m v s).value? s.tree.size ∧
      (itemRun items i m v r).tree.hasIssuesBelow r.tree.size =
        (itemRun items' j m v s).tree.hasIssuesBelow s.tree.size)
    (values : List Value) : ∀ m r s, Rel r s →
      (runItems items.process i m values r).1 = (runItems items'.process j m values s).1 ∧
      (runItems items.process i m values r).2.1 = (runItems items'.process j m values s).2.1 ∧
      Rel (runItems items.process i m values r).2.2 (runItems items'.process j m values s).2.2 := by
  induction values with
  | nil => exact fun _ _ _ hrs => ⟨rfl, rfl, hrs⟩
  | cons v rest ih =>
    intro m r s hrs
    obtain ⟨hrel, hvalue, hissues⟩ := step m v r s hrs
    obtain ⟨houts, hfailing, hrest⟩ := ih (m + 1) _ _ hrel
    rw [runItems_cons, runItems_cons, hvalue, hissues, houts, hfailing]
    exact ⟨rfl, rfl, hrest⟩

theorem inspectList_agrees {Rel : Run → Run → Prop} {items items' : Entity}
    (hRel : Agrees [] i j Rel)
    (step : ∀ m v r s, Rel r s → Rel (itemRun items i m v r) (itemRun items' j m v s) ∧
      (itemRun items i m v r).value? r.tree.size = (itemRun items' j m v s).value? s.tree.size ∧
      (itemRun items i m v r).tree.hasIssuesBelow r.tree.size =
        (itemRun items' j m v s).tree.hasIssuesBelow s.tree.size)
    (hrs : Rel r s) :
    Rel (inspectList (some items.process) i r) (inspectList (some items'.process) j s) := by
  have hset : ∀ v r s, Rel r s → Rel (r.setValue i v) (s.setValue j v) :=
    fun v _ _ => hRel.touch (Tracker.onContent_setValue v)
  have hrecord : ∀ issue r s, Rel r s → Rel (r.record i issue) (s.record j issue) :=
    fun issue _ _ => hRel.touch (Tracker.onContent_record issue)
  by_cases hlist : ∃ values, r.value? i = some (.list values)
  · obtain ⟨values, hv⟩ := hlist
    rw [inspectList_of_list hv, inspectList_of_list ((hRel.value hrs).symm.trans hv)]
    obtain ⟨houts, hfailing, hitems⟩ := runItems_agrees step values 0 _ _ (hset none _ _ hrs)
    dsimp only
    rw [houts, hfailing]
    split
    · exact hset _ _ _ hitems
    · exact hrecord _ _ _ (hset _ _ _ hitems)
  · rw [inspectList_refuses hlist, inspectList_refuses (hRel.value hrs ▸ hlist)]
    exact hrecord _ _ _ hrs

/-! ## Objects in step -/

theorem attachMembers_twin (input : List (String × Value)) :
    ∀ (names : List String) {ρ : TrackerId → TrackerId → Prop} {t u : TrackerTree},
      Twin tainted ρ t u → ρ i j → ∃ ρ', (∀ a b, ρ a b → ρ' a b) ∧
        Twin tainted ρ' (attachMembers i names input t) (attachMembers j names input u)
  | [], ρ, t, u, h, hij => ⟨ρ, fun _ _ hab => hab, h⟩
  | name :: rest, ρ, t, u, h, hij => by
    obtain ⟨ρ', hρ', h'⟩ := attachMembers_twin input rest
      (h.attach hij name (Value.lookup? name input)) (.inl hij)
    exact ⟨ρ', fun a b hab => hρ' a b (.inl hab), h'⟩

section Assemble

variable {ρ : TrackerId → TrackerId → Prop} {t u : TrackerTree}

/-- Two members' children with their names. -/
def Named (ρ : TrackerId → TrackerId → Prop) (a b : String × TrackerId) : Prop :=
  a.1 = b.1 ∧ ρ a.2 b.2

theorem memberChildren_rel (h : Twin tainted ρ t u) (hij : ρ i j) (names : List String) :
    List.Forall₂ (Named ρ) (memberChildren t i names) (memberChildren u j names) := by
  induction names with
  | nil => exact .nil
  | cons name rest ih =>
    unfold memberChildren at ih ⊢
    rw [List.filterMap_cons, List.filterMap_cons]
    rcases rel_cases (h.child_rel hij name) with ⟨hc, hd⟩ | ⟨c, d, hc, hd, hcd⟩ <;>
      unfold TrackerTree.child? at hc hd <;> rw [hc, hd]
    · exact ih
    · exact .cons ⟨rfl, hcd⟩ ih

theorem failingMembers_eq (h : Twin tainted ρ t u) {x y : List (String × TrackerId)}
    (hxy : List.Forall₂ (Named ρ) x y) : failingMembers t x = failingMembers u y := by
  induction hxy with
  | nil => rfl
  | @cons a b x y hab _ ih =>
    unfold failingMembers at ih ⊢
    rw [List.filter_cons, List.filter_cons, h.hasIssuesBelow_eq hab.2]
    split
    · rw [List.map_cons, List.map_cons, hab.1, ih]
    · exact ih

theorem memberValues_eq (h : Twin tainted ρ t u) {x y : List (String × TrackerId)}
    (hxy : List.Forall₂ (Named ρ) x y) : memberValues t x = memberValues u y := by
  induction hxy with
  | nil => rfl
  | @cons a b x y hab _ ih =>
    unfold memberValues at ih ⊢
    obtain ⟨name, c⟩ := a
    obtain ⟨name', d⟩ := b
    obtain ⟨rfl, hcd⟩ := hab
    simp only [List.filterMap_cons, ih, h.value?_eq hcd]

end Assemble

/-- An object is put together alike from paired children. -/
theorem Paired.assemble {Rel : Run → Run → Prop} (hRel : Agrees [] i j Rel)
    {ρ : TrackerId → TrackerId → Prop} (h : Twin tainted ρ r.tree s.tree) (hij : ρ i j)
    (policy : UnknownKeys) (names : List String) (unknown : List (String × Value))
    (hrs : Rel r s) :
    Rel (assemble policy names unknown i r) (assemble policy names unknown j s) := by
  have hnames : ∀ r s, Rel r s → ∀ key arg names,
      Rel (recordNames i key arg names r) (recordNames j key arg names s) := fun r s hrs =>
    recordNames_agrees (fun issue => hRel.touch (Tracker.onContent_record issue) hrs) hrs
  have hchildren := memberChildren_rel h hij names
  unfold Run.assemble
  dsimp only
  rw [failingMembers_eq h hchildren, memberValues_eq h hchildren]
  exact hnames _ _ (hnames _ _ (hRel.touch (Tracker.onContent_setValue _) hrs) _ _ _) _ _ _

theorem inspectObject_agrees {Rel : Run → Run → Prop} {members : List (String × Entity)}
    {schedule : Schedule String} {policy : UnknownKeys} (hRel : Agrees [] i j Rel)
    (run : ∀ input r s, Rel r s →
      Rel (runSchedule schedule (memberStages members) i
          (r.mapTree (attachMembers i (members.map (·.1)) input)))
        (runSchedule schedule (memberStages members) j
          (s.mapTree (attachMembers j (members.map (·.1)) input))))
    (assembled : ∀ names unknown r s, Rel r s →
      Rel (assemble policy names unknown i r) (assemble policy names unknown j s))
    (hrs : Rel r s) :
    Rel (inspectObject (memberStages members) schedule policy i r)
      (inspectObject (memberStages members) schedule policy j s) := by
  by_cases hobject : ∃ input, r.value? i = some (.object input)
  · obtain ⟨input, hv⟩ := hobject
    rw [inspectObject_of_object hv, inspectObject_of_object ((hRel.value hrs).symm.trans hv)]
    have hset : Rel (r.setValue i none) (s.setValue j none) :=
      hRel.touch (Tracker.onContent_setValue none) hrs
    have hrun := run input _ _ hset
    exact andThen_agrees (fun _ _ => hRel.issues) hrun (fun _ _ h => h) (assembled _ _)
  · rw [inspectObject_refuses hobject, inspectObject_refuses (hRel.value hrs ▸ hobject)]
    exact hRel.touch (Tracker.onContent_record _) hrs

section Members

variable {own : Option String} {n : Nat} {source : Chain} {resolver : Option Entity}
  {pipeline : Pipeline} {members : List (String × Entity)} {schedule : Schedule String}
  {policy : UnknownKeys} {escaping : List Path} {input : List (String × Value)}

/-- Two runs of the members of an object, with the same members done. -/
structure Abreast (tainted : String → Prop) (ρ₀ : TrackerId → TrackerId → Prop) (i : TrackerId)
    (r₀ r₁ : Run) (done : List String) (r s : Run) : Prop where
  ongoing : Ongoing i r₀ r₁ done r
  twin : ∃ ρ, (∀ a b, ρ₀ a b → ρ a b) ∧ Twin tainted ρ r.tree s.tree

/-- One member of an object. -/
theorem Abreast.member {t : TrackerTree} {name : String} {e : Entity} {done : List String}
    {r₁ : Run}
    (harranges : schedule.Arranges own (members.map fun m => (m.1, m.2.references)) escaping)
    (harranged : Arranged (some name) e) (ih : Mirrors tainted (some name) e)
    (hl : r₀.tree.Linked) (hi : i < r₀.tree.size) (hij : ρ₀ i j)
    (h₀ : Screened tainted own (.mk n source resolver
      (.behaviour pipeline (.object members schedule policy escaping))) i r₀.tree)
    (hattached : Attached i (members.map (·.1)) input t r₁.tree) (hsize : r₀.tree.size ≤ t.size)
    (he : Table.get? members name = some e) (h : Abreast tainted ρ₀ i r₀ r₁ done r s) :
    Abreast tainted ρ₀ i r₀ r₁ (done ++ [name]) (runMember (memberStages members) i name r)
      (runMember (memberStages members) j name s) := by
  obtain ⟨hongoing, ρ, hρ, ht⟩ := h
  obtain ⟨c, hc, hle, -⟩ := hattached.child name (Table.mem_names_of_get? he)
  have hc' := (hongoing.child?_eq name).trans hc
  obtain ⟨d, hd, hcd⟩ : ∃ d, s.tree.child? j name = some d ∧ ρ c d := by
    have hrel := ht.child_rel (hρ i j hij) name
    rw [hc'] at hrel
    rcases rel_cases hrel with ⟨hnone, -⟩ | ⟨c₂, d, hc₂, hd, hcd⟩
    · cases hnone
    · exact ⟨d, hd, Option.some.inj hc₂ ▸ hcd⟩
  have hl' := hongoing.advances.grows.linked
  have hroot := (ht.inner (hρ i j hij)).1
  have hscreened := (h₀.advance hl hi hongoing.advances).member harranges hl' hroot he hc'
    fun other hother => by
      obtain ⟨x, hx, -⟩ := hattached.child other hother
      exact ⟨x, (hongoing.child?_eq other).trans hx⟩
  obtain ⟨ρ', hρ', ht'⟩ := ih _ _ _ _ _ ht hcd hscreened
  rw [runMember_eq he hc', runMember_eq he hd]
  refine ⟨hongoing.member hattached.grows.linked hc (Nat.le_trans hsize hle)
    (process_advances harranged hl' (hl'.child_lt_size hc')), ρ', ?_, ht'⟩
  exact fun x y hxy => hρ' x y (hρ x y hxy)

theorem paired_runSchedule
    (harranges : schedule.Arranges own (members.map fun m => (m.1, m.2.references)) escaping)
    (harranged : ∀ m ∈ members, Arranged (some m.1) m.2)
    (ih : ∀ m ∈ members, Mirrors tainted (some m.1) m.2) (hl : r₀.tree.Linked)
    (hi : i < r₀.tree.size) (hij : ρ₀ i j)
    (h₀ : Screened tainted own (.mk n source resolver
      (.behaviour pipeline (.object members schedule policy escaping))) i r₀.tree)
    (h : Paired tainted ρ₀ i r₀ r s) (input : List (String × Value)) :
    Paired tainted ρ₀ i r₀
      (runSchedule schedule (memberStages members) i
        (r.mapTree (attachMembers i (members.map (·.1)) input)))
      (runSchedule schedule (memberStages members) j
        (s.mapTree (attachMembers j (members.map (·.1)) input))) := by
  obtain ⟨ha, ρ, hρ, ht⟩ := h
  obtain ⟨ρ₁, hρ₁, ht₁⟩ := attachMembers_twin input (members.map (·.1)) ht (hρ i j hij)
  have hattached : Attached i (members.map (·.1)) input r.tree
      (r.mapTree (attachMembers i (members.map (·.1)) input)).tree :=
    attached_attachMembers _ ha.grows.linked (ha.lt hi)
  have hgrow : Advances i r (r.mapTree (attachMembers i (members.map (·.1)) input)) :=
    .of_grows hattached.grows rfl
  generalize hr₁ : r.mapTree (attachMembers i (members.map (·.1)) input) = r₁ at hattached hgrow
  generalize hs₁ : s.mapTree (attachMembers j (members.map (·.1)) input) = s₁
  have hfirst : Abreast tainted ρ₀ i r₀ r₁ [] r₁ s₁ := by
    refine ⟨⟨ha.trans hgrow (.inl rfl), rfl, fun _ _ => rfl⟩, ρ₁,
      fun x y hxy => hρ₁ x y (hρ x y hxy), ?_⟩
    rw [← hr₁, ← hs₁]
    exact ht₁
  obtain ⟨keys, hserves, hrun⟩ := runSchedule_eq harranges
  rw [hrun, hrun]
  have habreast : Abreast tainted ρ₀ i r₀ r₁ keys _ _ :=
    foldl_both (fun done name rest hkeys a b hab => by
      obtain ⟨e, he, hmem⟩ := exists_entity (hserves.mem_next hkeys)
      exact hab.member harranges (harranged _ hmem) (ih _ hmem) hl hi hij h₀ hattached
        ha.grows.size he) hfirst
  exact ⟨habreast.ongoing.advances, habreast.twin⟩

end Members

/-! ## The main result -/

theorem process_mirrors {own : Option String} {e : Entity} (h : Arranged own e) :
    Mirrors tainted own e := by
  have start_paired : ∀ {ρ : TrackerId → TrackerId → Prop} {i j : TrackerId} {r s : Run} (n : Nat),
      Twin tainted ρ r.tree s.tree → ρ i j →
      Paired tainted ρ i r (start n i r) (start n j s) := fun n ht hij =>
    ⟨advances_start ht.linked.1 n, _, fun _ _ h => h, ht.update hij (Tracker.onContent_claim n)⟩
  induction h with
  | single hr hb =>
    intro ρ i j r s ht hij hscreened
    obtain ⟨G, hG, he⟩ := process_local hr
    rw [he]
    have hi := (ht.lt_size hij).1
    refine (hG.agrees (Paired.agrees ht.linked.1 hi hij hscreened.clear)
      (fun F hF r' s' hrs => ?_) (start_paired _ ht hij)).2
    exact agrees_of_single hb hF (Paired.agrees ht.linked.1 hi hij (by simp)) hrs
  | array hr harranged ih =>
    intro ρ i j r s ht hij hscreened
    obtain ⟨G, hG, he⟩ := process_local hr
    rw [he]
    have hi := (ht.lt_size hij).1
    refine (hG.agrees (Paired.agrees ht.linked.1 hi hij hscreened.clear)
      (fun F hF r' s' hrs => ?_) (start_paired _ ht hij)).2
    obtain ⟨pipeline, hooks, heq, rfl⟩ := hF
    cases heq
    exact inspectList_agrees (Paired.agrees ht.linked.1 hi hij (by simp))
      (fun m v r s hrs => Paired.item harranged ih ht.linked.1 hi hij hscreened hrs m v) hrs
  | object hr harranges hm ih =>
    intro ρ i j r s ht hij hscreened
    obtain ⟨G, hG, he⟩ := process_local hr
    rw [he]
    have hi := (ht.lt_size hij).1
    have hown : Agrees [] i j (Paired tainted ρ i r) :=
      Paired.agrees ht.linked.1 hi hij (by simp)
    refine (hG.agrees (Paired.agrees ht.linked.1 hi hij hscreened.clear)
      (fun F hF r' s' hrs => ?_) (start_paired _ ht hij)).2
    obtain ⟨pipeline, hooks, heq, rfl⟩ := hF
    cases heq
    refine inspectObject_agrees hown (fun input r s hrs => ?_)
      (fun names unknown r s hrs => ?_) hrs
    · exact paired_runSchedule harranges hm ih ht.linked.1 hi hij hscreened hrs input
    · obtain ⟨-, ρ', hρ', ht'⟩ := id hrs
      exact Paired.assemble hown ht' (hρ' _ _ hij) _ names unknown hrs

end Run

end Intake
