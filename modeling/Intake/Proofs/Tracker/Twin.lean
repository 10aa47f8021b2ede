import Mathlib.Data.List.Forall2
import Intake.Proofs.Tracker.Scope
/-!
# Twin trees

Two runs of the same entities number their trackers differently as soon as one of them makes more
children than the other.  `Twin tainted ρ t u` says that the trees `t` and `u` are alike where it
matters, up to the numbers: the relation `ρ` pairs trackers that carry the same and have paired
children, and the root has paired children under exactly the names that are not tainted.

A look-up leads to paired trackers in both trees, unless it enters at the root through a tainted
name:

    Twin tainted ρ t u → ρ i j → Clear tainted t i path →
      Option.Rel ρ (t.locateFrom i path) (u.locateFrom j path)
-/

namespace Intake

namespace TrackerTree

variable {tainted : String → Prop} {ρ ρ' : TrackerId → TrackerId → Prop} {t t' u u' : TrackerTree}

/-- Two entries of the children of `i` and of `j` belong together. -/
def Entries (ρ : TrackerId → TrackerId → Prop) (i j : TrackerId) (a b : String × TrackerId) :
    Prop :=
  a.1 = b.1 ∧ ρ a.2 b.2 ∧ i < a.2 ∧ j < b.2

/-- Paired trackers, or the two roots. -/
def Around (ρ : TrackerId → TrackerId → Prop) (p q : TrackerId) : Prop :=
  ρ p q ∨ p = root ∧ q = root

/-- Two trackers carry the same, and their parents and children belong together. -/
structure Alike (ρ : TrackerId → TrackerId → Prop) (i j : TrackerId) (k l : Tracker) : Prop where
  content : Tracker.SameContent k l
  parents : ∃ p q, k.parent = some p ∧ l.parent = some q ∧ Around ρ p q
  children : List.Forall₂ (Entries ρ i j) k.children l.children

/-- The roots have children under the same names, and the pairs are those under the names that
are not tainted. -/
structure AtRoot (tainted : String → Prop) (ρ : TrackerId → TrackerId → Prop)
    (t u : TrackerTree) : Prop where
  names : ∀ s, (t.child? root s).isSome = (u.child? root s).isSome
  clean : ∀ s, ¬ tainted s → Option.Rel ρ (t.child? root s) (u.child? root s)
  apart : ∀ {i j s}, ρ i j → tainted s → t.child? root s ≠ some i ∧ u.child? root s ≠ some j

structure Twin (tainted : String → Prop) (ρ : TrackerId → TrackerId → Prop)
    (t u : TrackerTree) : Prop extends AtRoot tainted ρ t u where
  linked : t.Linked ∧ u.Linked
  alike : ∀ {i j}, ρ i j → ∃ k l, t.get? i = some k ∧ u.get? j = some l ∧ Alike ρ i j k l
  unique : ∀ {i j i' j'}, ρ i j → ρ i' j' → (i = i' ↔ j = j')
  inner : ∀ {i j}, ρ i j → i ≠ root ∧ j ≠ root

/-! ## Tables and options -/

theorem get?_rel {i j : TrackerId} {x y : Table TrackerId}
    (h : List.Forall₂ (Entries ρ i j) x y) (s : String) :
    Option.Rel ρ (Table.get? x s) (Table.get? y s) := by
  induction h with
  | nil => exact .none
  | @cons a b x y hab _ ih =>
    obtain ⟨n, c⟩ := a
    obtain ⟨n', d⟩ := b
    obtain ⟨rfl, hcd, -, -⟩ := hab
    rw [Table.get?_cons, Table.get?_cons]
    split
    · exact .some hcd
    · exact ih

theorem put_rel {i j c d : TrackerId} {x y : Table TrackerId} {s : String}
    (h : List.Forall₂ (Entries ρ i j) x y) (hcd : Entries ρ i j (s, c) (s, d)) :
    List.Forall₂ (Entries ρ i j) (Table.put s c x) (Table.put s d y) := by
  induction h with
  | nil => exact .cons hcd .nil
  | @cons a b x y hab htail ih =>
    obtain ⟨n, a⟩ := a
    obtain ⟨n', b⟩ := b
    obtain ⟨rfl, hρ⟩ := hab
    by_cases hn : n = s
    · subst hn
      simp only [Table.put, if_true]
      exact .cons hcd htail
    · simp only [Table.put, if_neg hn]
      exact .cons ⟨rfl, hρ⟩ ih

theorem rel_cases {α β : Type} {R : α → β → Prop} {x : Option α} {y : Option β}
    (h : Option.Rel R x y) :
    (x = none ∧ y = none) ∨ ∃ a b, x = some a ∧ y = some b ∧ R a b := by
  cases h with
  | none => exact .inl ⟨rfl, rfl⟩
  | some h => exact .inr ⟨_, _, rfl, rfl, h⟩

theorem isSome_eq_of_rel {α β : Type} {R : α → β → Prop} {x : Option α} {y : Option β}
    (h : Option.Rel R x y) : x.isSome = y.isSome := by
  cases h <;> rfl

theorem bind_rel {α β γ δ : Type} {R : α → β → Prop} {S : γ → δ → Prop} {x : Option α}
    {y : Option β} {f : α → Option γ} {g : β → Option δ} (h : Option.Rel R x y)
    (hfg : ∀ a b, R a b → Option.Rel S (f a) (g b)) : Option.Rel S (x.bind f) (y.bind g) := by
  cases h with
  | none => exact .none
  | some h => exact hfg _ _ h

theorem Alike.mono {i j : TrackerId} {k l : Tracker} (h : Alike ρ i j k l)
    (hρ : ∀ a b, ρ a b → ρ' a b) : Alike ρ' i j k l := by
  obtain ⟨p, q, hp, hq, hpq⟩ := h.parents
  exact ⟨h.content, ⟨p, q, hp, hq, hpq.imp_left (hρ p q)⟩,
    h.children.imp fun _ _ ⟨hn, hab, hlt⟩ => ⟨hn, hρ _ _ hab, hlt⟩⟩

theorem AtRoot.congr (h : AtRoot tainted ρ t u)
    (hroot : ∀ s, t'.child? root s = t.child? root s ∧ u'.child? root s = u.child? root s) :
    AtRoot tainted ρ t' u' := by
  refine ⟨fun s => ?_, fun s hs => ?_, fun {i j s} hij hs => ?_⟩ <;>
    rw [(hroot s).1, (hroot s).2]
  · exact h.names s
  · exact h.clean s hs
  · exact h.apart hij hs

/-- More pairs, away from the children of the roots. -/
theorem AtRoot.mono (h : AtRoot tainted ρ t u) (hρ : ∀ a b, ρ a b → ρ' a b)
    (hnew : ∀ a b, ρ' a b → ρ a b ∨ ∀ s, t.child? root s ≠ some a ∧ u.child? root s ≠ some b) :
    AtRoot tainted ρ' t u := by
  refine ⟨h.names, fun s hs => ?_, fun {i j s} hij hs => ?_⟩
  · rcases rel_cases (h.clean s hs) with ⟨hx, hy⟩ | ⟨x, y, hx, hy, hxy⟩
    · rw [hx, hy]
      exact .none
    · rw [hx, hy]
      exact .some (hρ x y hxy)
  · rcases hnew i j hij with hij | hij
    · exact h.apart hij hs
    · exact hij s

namespace Twin

/-! ## What paired trackers show -/

variable {i j : TrackerId}

theorem lt_size (h : Twin tainted ρ t u) (hij : ρ i j) : i < t.size ∧ j < u.size := by
  obtain ⟨k, l, hk, hl, -⟩ := h.alike hij
  exact ⟨lt_size_of_get? hk, lt_size_of_get? hl⟩

theorem value?_eq (h : Twin tainted ρ t u) (hij : ρ i j) : t.value? i = u.value? j := by
  obtain ⟨k, l, hk, hl, ha⟩ := h.alike hij
  simp [value?, hk, hl, ha.content.value]

theorem hasIssues_eq (h : Twin tainted ρ t u) (hij : ρ i j) : t.hasIssues i = u.hasIssues j := by
  obtain ⟨k, l, hk, hl, ha⟩ := h.alike hij
  simp [hasIssues, Tracker.hasIssues, hk, hl, ha.content.issues]

theorem child_rel (h : Twin tainted ρ t u) (hij : ρ i j) (s : String) :
    Option.Rel ρ (t.child? i s) (u.child? j s) := by
  obtain ⟨k, l, hk, hl, ha⟩ := h.alike hij
  rw [child?_of_get? hk, child?_of_get? hl]
  exact get?_rel ha.children s

theorem follow_rel (h : Twin tainted ρ t u) (hij : ρ i j) (segments : List String) :
    Option.Rel ρ (t.follow i segments) (u.follow j segments) := by
  induction segments generalizing i j with
  | nil => exact .some hij
  | cons s rest ih =>
    rw [follow_cons, follow_cons]
    exact bind_rel (h.child_rel hij s) fun _ _ hab => ih hab

/-- Paired trackers have issues below them in both trees or in neither. -/
theorem hasIssuesBelow_eq (h : Twin tainted ρ t u) (hij : ρ i j) :
    t.hasIssuesBelow i = u.hasIssuesBelow j := by
  induction hn : t.size - i using Nat.strongRecOn generalizing i j with
  | _ n ih =>
    obtain ⟨k, l, hk, hl, ha⟩ := h.alike hij
    rw [hasIssuesBelow, hasIssuesBelow, hk, hl]
    simp only [Tracker.hasIssues, ha.content.issues]
    congr 1
    have hi := (h.lt_size hij).1
    have hchildren := ha.children
    generalize k.children = x, l.children = y at hchildren
    induction hchildren with
    | nil => rfl
    | @cons a b x y hab _ ihx =>
      obtain ⟨-, hρ, hia, hjb⟩ := hab
      obtain ⟨hat, hbu⟩ := h.lt_size hρ
      have hrec := ih (t.size - a.2) (by rw [← hn]; exact Nat.sub_lt_sub_left hi hia) hρ rfl
      rw [List.any_cons, List.any_cons, ihx, dif_pos ⟨hia, hat⟩, dif_pos ⟨hjb, hbu⟩, hrec]

/-! ## Look-ups -/

theorem enclosing_rel (h : Twin tainted ρ t u) (hij : ρ i j) :
    List.Forall₂ (Around ρ) (t.enclosing i) (u.enclosing j) := by
  induction i using Nat.strongRecOn generalizing j with
  | _ i ih =>
    obtain ⟨k, l, hk, hl, halike⟩ := h.alike hij
    obtain ⟨p, q, hp, hq, hpq⟩ := halike.parents
    rw [h.linked.1.enclosing_eq hk hp, h.linked.2.enclosing_eq hl hq]
    refine .cons hpq ?_
    rcases hpq with hpq | ⟨rfl, rfl⟩
    · exact ih p (h.linked.1.up hk hp) hpq
    · have hnone : ∀ {t : TrackerTree}, t.Linked → t.enclosing root = [] := fun hl =>
        List.eq_nil_iff_forall_not_mem.2 fun x hx => Nat.not_lt_zero x (hl.enclosing_lt hx)
      rw [hnone h.linked.1, hnone h.linked.2]
      exact .nil

theorem entry?_rel (h : Twin tainted ρ t u) (hij : ρ i j) (first : String) :
    Option.Rel (Around ρ) (t.entry? i first) (u.entry? j first) := by
  have haround := h.enclosing_rel hij
  unfold entry?
  generalize t.enclosing i = x, u.enclosing j = y at haround
  induction haround with
  | nil => exact .none
  | @cons p q x y hpq _ ih =>
    have hsome : (t.child? p first).isSome = (u.child? q first).isSome := by
      rcases hpq with hpq | ⟨rfl, rfl⟩
      · exact isSome_eq_of_rel (h.child_rel hpq first)
      · exact h.names first
    rw [List.find?_cons, List.find?_cons, hsome]
    split
    · exact .some hpq
    · exact ih

end Twin

/-- A look-up for `i` does not enter at the root through a tainted name. -/
def Clear (tainted : String → Prop) (t : TrackerTree) (i : TrackerId) (path : Path) : Prop :=
  ∀ first, path.first? = some first → tainted first → t.entry? i first ≠ some root

namespace Twin

variable {i j : TrackerId}

theorem locateFrom_rel (h : Twin tainted ρ t u) (hij : ρ i j) {path : Path}
    (hclear : Clear tainted t i path) :
    Option.Rel ρ (t.locateFrom i path) (u.locateFrom j path) := by
  rw [locateFrom_eq, locateFrom_eq]
  cases hfirst : path.first? with
  | none => exact .none
  | some first =>
    have hclear := hclear first hfirst
    simp only [Option.bind_some]
    rcases rel_cases (h.entry?_rel hij first) with ⟨hp, hq⟩ | ⟨p, q, hp, hq, hpq⟩
    · rw [hp, hq]
      exact .none
    · rw [hp] at hclear
      rw [hp, hq]
      simp only [Option.bind_some]
      rcases hpq with hpq | ⟨rfl, rfl⟩
      · exact h.follow_rel hpq _
      · have hclean : ¬ tainted first := fun ht => hclear ht rfl
        obtain ⟨rest, hsegments⟩ := Path.segments_of_first? hfirst
        rw [hsegments, follow_cons, follow_cons]
        exact bind_rel (h.clean first hclean) fun _ _ hab => h.follow_rel hab rest

/-- A look-up reads the same in both trees. -/
theorem lookUp_eq (h : Twin tainted ρ t u) (hij : ρ i j) {path : Path}
    (hclear : Clear tainted t i path) :
    (t.locateFrom i path).bind t.value? = (u.locateFrom j path).bind u.value? := by
  rcases rel_cases (h.locateFrom_rel hij hclear) with ⟨hx, hy⟩ | ⟨x, y, hx, hy, hxy⟩
  · rw [hx, hy]
    rfl
  · rw [hx, hy]
    exact h.value?_eq hxy

/-! ## What keeps trees twins -/

/-- Work elsewhere, in either tree. -/
theorem frame (h : Twin tainted ρ t u) (hlinked : t'.Linked ∧ u'.Linked)
    (hroot : ∀ s, t'.child? root s = t.child? root s ∧ u'.child? root s = u.child? root s)
    (hpair : ∀ {i j}, ρ i j → t'.get? i = t.get? i ∧ u'.get? j = u.get? j) :
    Twin tainted ρ t' u' where
  toAtRoot := h.toAtRoot.congr hroot
  linked := hlinked
  alike hij := by
    rw [(hpair hij).1, (hpair hij).2]
    exact h.alike hij
  unique := h.unique
  inner := h.inner

/-- The same change of paired trackers. -/
theorem update (h : Twin tainted ρ t u) (hij : ρ i j) {f : Tracker → Tracker}
    (hf : Tracker.OnContent f) : Twin tainted ρ (t.update i f) (u.update j f) := by
  have hroot := h.inner hij
  refine ⟨h.toAtRoot.congr fun s => ?_,
    ⟨(Grows.update h.linked.1 i hf).linked, (Grows.update h.linked.2 j hf).linked⟩,
    fun {a b} hab => ?_, h.unique, h.inner⟩
  · unfold child?
    rw [get?_update_of_ne hroot.1.symm, get?_update_of_ne hroot.2.symm]
    exact ⟨rfl, rfl⟩
  · obtain ⟨k, l, hk, hl, halike⟩ := h.alike hab
    -- the trackers of a pair are both changed or both left alone
    by_cases ha : a = i
    · have hb : b = j := (h.unique hab hij).1 ha
      subst ha hb
      refine ⟨f k, f l, ?_, ?_, ?_⟩
      · rw [get?_update_self, hk, Option.map_some]
      · rw [get?_update_self, hl, Option.map_some]
      · obtain ⟨hkp, -, hkc⟩ := hf.links k
        obtain ⟨hlp, -, hlc⟩ := hf.links l
        refine ⟨hf.content halike.content, ?_, ?_⟩
        · rw [hkp, hlp]
          exact halike.parents
        · rw [hkc, hlc]
          exact halike.children
    · have hb : b ≠ j := fun hb => ha ((h.unique hab hij).2 hb)
      refine ⟨k, l, ?_, ?_, halike⟩
      · rw [get?_update_of_ne ha, hk]
      · rw [get?_update_of_ne hb, hl]

/-- The pairs after paired trackers have been given a child each. -/
def Attach (ρ : TrackerId → TrackerId → Prop) (t u : TrackerTree) (a b : TrackerId) : Prop :=
  ρ a b ∨ a = t.size ∧ b = u.size

theorem attach (h : Twin tainted ρ t u) (hij : ρ i j) (s : String) (value : Option Value) :
    Twin tainted (Attach ρ t u) (t.attach i s value).2 (u.attach j s value).2 := by
  obtain ⟨hi, hj⟩ := h.lt_size hij
  have hroot := h.inner hij
  have hmono : ∀ a b, ρ a b → Attach ρ t u a b := fun _ _ hab => .inl hab
  have hne : ∀ {a b}, ρ a b → a ≠ t.size ∧ b ≠ u.size := fun hab =>
    ⟨Nat.ne_of_lt (h.lt_size hab).1, Nat.ne_of_lt (h.lt_size hab).2⟩
  have hzero : root ≠ t.size ∧ root ≠ u.size :=
    ⟨Nat.ne_of_lt (Nat.lt_of_le_of_lt (Nat.zero_le i) hi),
      Nat.ne_of_lt (Nat.lt_of_le_of_lt (Nat.zero_le j) hj)⟩
  have hnew : ∀ a b, Attach ρ t u a b → ρ a b ∨
      ∀ s, t.child? root s ≠ some a ∧ u.child? root s ≠ some b := by
    rintro a b (hab | ⟨rfl, rfl⟩)
    · exact .inl hab
    · exact .inr fun s => ⟨fun hc => Nat.lt_irrefl _ (h.linked.1.child_lt_size hc),
        fun hc => Nat.lt_irrefl _ (h.linked.2.child_lt_size hc)⟩
  refine ⟨(h.toAtRoot.mono hmono hnew).congr fun s' => ?_,
    ⟨h.linked.1.attach hi s value, h.linked.2.attach hj s value⟩,
    ?_, ?_, ?_⟩
  · unfold child?
    rw [get?_attach_of_ne hroot.1.symm hzero.1, get?_attach_of_ne hroot.2.symm hzero.2]
    exact ⟨rfl, rfl⟩
  · rintro a b (hab | ⟨rfl, rfl⟩)
    · obtain ⟨k, l, hk, hl, halike⟩ := h.alike hab
      have halike := halike.mono hmono
      by_cases ha : a = i
      · have hb : b = j := (h.unique hab hij).1 ha
        subst ha hb
        have hk' := get?_attach_parent hi s value
        have hl' := get?_attach_parent hj s value
        rw [hk, Option.map_some] at hk'
        rw [hl, Option.map_some] at hl'
        refine ⟨_, _, hk', hl', ⟨?_, halike.parents, ?_⟩⟩
        · exact ⟨halike.content.value, halike.content.entity, halike.content.issues⟩
        · exact put_rel halike.children ⟨rfl, .inr ⟨rfl, rfl⟩, hi, hj⟩
      · have hb : b ≠ j := fun hb => ha ((h.unique hab hij).2 hb)
        refine ⟨k, l, ?_, ?_, halike⟩
        · rw [get?_attach_of_ne ha (hne hab).1, hk]
        · rw [get?_attach_of_ne hb (hne hab).2, hl]
    · exact ⟨_, _, get?_attach_size hi s value, get?_attach_size hj s value,
        ⟨⟨rfl, rfl, rfl⟩, ⟨i, j, rfl, rfl, .inl (.inl hij)⟩, .nil⟩⟩
  · rintro a b a' b' (hab | ⟨rfl, rfl⟩) (hab' | ⟨rfl, rfl⟩)
    · exact h.unique hab hab'
    · exact iff_of_false (hne hab).1 (hne hab).2
    · exact iff_of_false (hne hab').1.symm (hne hab').2.symm
    · exact iff_of_true rfl rfl
  · rintro a b (hab | ⟨rfl, rfl⟩)
    · exact h.inner hab
    · exact ⟨hzero.1.symm, hzero.2.symm⟩

end Twin

end TrackerTree

end Intake
