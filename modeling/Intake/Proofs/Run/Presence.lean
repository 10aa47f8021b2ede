import Intake.Proofs.Entity.Fits
import Intake.Proofs.Run.Applies
/-!
# Presence rules

Before an entity does anything with a value, it decides by its presence rules what is to become of
it.  The value that it begins with is the one that is tracked, or for a reference the one that is
looked up (`Entity.tracked`).  If that is undefined, it is an issue or becomes the default; if it
is defined, it is an issue or goes through the kind's behaviour:

    Mapper.standard.compile c = .ok root → e.Within root → k.issues = [] →
      match e.tracked id r with
      | none => e.Puts id (if required then none else default) … r (e.process id r)
      | some v => if forbidden then e.Puts id (some v) … else e.process id r = behave e.body id r₀

`e.Puts id value issues r r'` says all that a presence rule does: the tracker is claimed and has
this value and these issues, no processor has been called and no tracker has been attached.  It
holds of a default that is looked up as well, although another entity does so on the same tracker.
-/

namespace Intake

/-! ## The entities of a compiled tree -/

namespace Entity

/-- An entity of a tree: one at an address, or the one that looks up the default there. -/
def Within (e root : Entity) : Prop :=
  ∃ segments owner, root.at? segments = some owner ∧ (e = owner ∨ owner.resolver = some e)

/-- What compilation guarantees of an entity by itself. -/
structure Compiled (e : Entity) : Prop where
  fits : e.Fits
  resolves : Resolves e.source.props.default? e.resolver

theorem Arranged.compiled {own : Option String} {e : Entity} (h : Arranged own e) (hf : e.Fits) :
    e.Compiled := by
  cases h with
  | single hr _ => exact ⟨hf, hr⟩
  | array hr _ => exact ⟨hf, hr⟩
  | object hr _ _ => exact ⟨hf, hr⟩

/-- What looks up a default: it has no presence rule, no default and no step of its own. -/
def resolving (n : Nat) (path : Path) : Entity :=
  .mk n (.ofPath path) none (.reference path (.ofSteps []))

theorem compiled_resolving (n : Nat) (path : Path) : (resolving n path).Compiled :=
  ⟨⟨rfl, rfl⟩, rfl⟩

theorem Within.arranged {c : Chain} {e root : Entity} (h : e.Within root)
    (hc : Mapper.standard.compile c = .ok root) : e.Fits ∧ ∃ own, Arranged own e := by
  obtain ⟨segments, owner, howner, he⟩ := h
  have hfits := (Mapper.compile_fits hc).2 segments owner howner
  obtain ⟨own, harranged⟩ := (Mapper.compile_arranged hc).at? howner
  rcases he with rfl | he
  · exact ⟨hfits, own, harranged⟩
  · have hresolves := (harranged.compiled hfits).resolves
    rw [he] at hresolves
    unfold Resolves at hresolves
    split at hresolves
    · obtain ⟨n, hn⟩ := hresolves
      obtain rfl := Option.some.inj hn
      exact ⟨(compiled_resolving n _).fits, none, .single rfl trivial⟩
    · cases hresolves

theorem Within.compiled {c : Chain} {e root : Entity} (h : e.Within root)
    (hc : Mapper.standard.compile c = .ok root) : e.Compiled := by
  obtain ⟨hfits, own, harranged⟩ := h.arranged hc
  exact harranged.compiled hfits

/-- What is forbidden is not required, and has no default. -/
theorem Compiled.exclusive {e : Entity} (h : e.Compiled)
    (hforbidden : e.source.props.forbidden = true) :
    e.source.props.required = false ∧ e.source.props.default? = none := by
  have hpresence := h.fits.presence
  unfold Chain.presenceConflict? at hpresence
  cases hr : e.source.props.required with
  | true => simp [hr, hforbidden] at hpresence
  | false =>
    cases hd : e.source.props.default? with
    | none => exact ⟨rfl, rfl⟩
    | some d => simp [hr, hforbidden, hd] at hpresence

end Entity

/-! ## What a presence rule does -/

/-- Whether a processor has been called. -/
def Event.isCall : Event → Bool
  | .called _ _ _ _ => true
  | _ => false

namespace Entity

/-- The value that an entity begins with: a reference looks it up. -/
def tracked (e : Entity) (id : TrackerId) (r : Run) : Option Value :=
  match target? e.body with
  | some path => r.tree.resolve id path
  | none => r.value? id

/-- The value that a default puts in the place of an undefined one. -/
def defaulted (default? : Option Operand) (id : TrackerId) (t : TrackerTree) : Option Value :=
  match default? with
  | some (.literal v) => some v
  | some (.reference path) => (t.setValue id none).resolve id path
  | none => none

/-- The entity has claimed its tracker, which has this value and these issues now.  Nothing else
has changed in the tree, no step has been executed, and no processor has been called. -/
structure Puts (e : Entity) (id : TrackerId) (value : Option Value) (issues : List Issue)
    (r r' : Run) : Prop where
  tree : r'.tree = r.tree.update id fun k => { k.claim e.id with value, issues }
  steps : r'.steps = r.steps
  trace : ∃ new, r'.trace = new ++ r.trace ∧ ∀ event ∈ new, event.isCall = false

namespace Puts

variable {e : Entity} {id : TrackerId} {r r' : Run} {k : Tracker} {value : Option Value}
  {issues : List Issue}

theorem get? (h : e.Puts id value issues r r') (hk : r.tree.get? id = some k) :
    r'.tree.get? id = some { k.claim e.id with value, issues } := by
  rw [h.tree, TrackerTree.get?_update_self, hk, Option.map_some]

theorem value?_eq (h : e.Puts id value issues r r') (hk : r.tree.get? id = some k) :
    r'.value? id = value :=
  Run.value?_of_get? (h.get? hk)

theorem record (h : e.Puts id value issues r r') (issue : Issue) :
    e.Puts id value (issues ++ [issue]) r (r'.record id issue) := by
  refine ⟨?_, h.steps, h.trace⟩
  show r'.tree.update id _ = _
  rw [h.tree, TrackerTree.update_update]
  rfl

theorem setValue (h : e.Puts id value issues r r') (v : Option Value) :
    e.Puts id v issues r (r'.setValue id v) := by
  refine ⟨?_, h.steps, h.trace⟩
  show r'.tree.update id _ = _
  rw [h.tree, TrackerTree.update_update]
  rfl

/-- What leaves the tree as it is, and calls no processor. -/
theorem quiet {r'' : Run} (h : e.Puts id value issues r r') (htree : r''.tree = r'.tree)
    (hsteps : r''.steps = r'.steps)
    (htrace : ∃ new, r''.trace = new ++ r'.trace ∧ ∀ event ∈ new, event.isCall = false) :
    e.Puts id value issues r r'' := by
  obtain ⟨new, hnew, hquiet⟩ := h.trace
  obtain ⟨new', hnew', hquiet'⟩ := htrace
  refine ⟨htree.trans h.tree, hsteps.trans h.steps, new' ++ new, ?_, ?_⟩
  · rw [hnew', hnew, List.append_assoc]
  · exact List.forall_mem_append.2 ⟨hquiet', hquiet⟩

/-- After another entity has worked on the tracker, the first one still owns it. -/
theorem trans {d : Entity} {r'' : Run} {value' : Option Value} {issues' : List Issue}
    (h : e.Puts id value issues r r') (h' : d.Puts id value' issues' r' r'') :
    e.Puts id value' issues' r r'' := by
  obtain ⟨new, hnew, hquiet⟩ := h.trace
  obtain ⟨new', hnew', hquiet'⟩ := h'.trace
  refine ⟨?_, h'.steps.trans h.steps, new' ++ new, ?_, ?_⟩
  · rw [h'.tree, h.tree, TrackerTree.update_update]
    congr 1
    funext k
    simp only [Tracker.claim]
    cases k.entity <;> rfl
  · rw [hnew', hnew, List.append_assoc]
  · exact List.forall_mem_append.2 ⟨hquiet', hquiet⟩

end Puts

/-! ## One rule after the other -/

section

variable {e : Entity} {id : TrackerId} {r : Run} {k : Tracker}

/-- What precedes the presence rules: the entity claims the tracker, and a reference puts in place
what it looks up. -/
def face (e : Entity) : Stage := fun id r => replace e.body id (start e.id id r)

theorem process_judge (e : Entity) (id : TrackerId) (r : Run) :
    e.process id r =
      judge e.source e.resolver e.body ((e.face id r).value? id) id (e.face id r) := by
  obtain ⟨n, source, resolver, body⟩ := e
  rw [process]
  rfl

theorem resolve_claim (t : TrackerTree) (id x : TrackerId) (n : Nat) (path : Path) :
    (t.update id (·.claim n)).resolve x path = t.resolve x path := by
  have hlinks : TrackerTree.SameLinks t (t.update id (·.claim n)) :=
    .update t id fun _ => ⟨rfl, rfl, rfl⟩
  refine (hlinks.resolve_eq (fun y => ?_) x path).symm
  by_cases hy : y = id
  · subst hy
    rw [TrackerTree.value?, TrackerTree.value?, TrackerTree.get?_update_self]
    cases t.get? y <;> rfl
  · rw [TrackerTree.value?, TrackerTree.value?, TrackerTree.get?_update_of_ne hy]

/-- The value that the presence rules are about is the one that the entity begins with. -/
theorem face_puts (hk : r.tree.get? id = some k) (hclean : k.issues = []) :
    e.Puts id (e.tracked id r) [] r (e.face id r) := by
  obtain ⟨n, source, resolver, body⟩ := e
  have hsame : r.tree.update id (·.claim n) =
      r.tree.update id fun l => { l.claim n with value := k.value, issues := [] } :=
    TrackerTree.update_eq hk (by rw [← hclean]; rfl)
  have hstart : Puts (.mk n source resolver body) id k.value [] r (start n id r) :=
    ⟨hsame, rfl, [.began n id], rfl, by simp [Event.isCall]⟩
  cases body with
  | reference path pipeline =>
    have hfound : ((start n id r).lookUp id path).1 = r.tree.resolve id path :=
      resolve_claim r.tree id id n path
    show Puts _ id (r.tree.resolve id path) [] r
      (((start n id r).lookUp id path).2.setValue id ((start n id r).lookUp id path).1)
    rw [hfound]
    have hlooked : Puts _ id k.value [] r ((start n id r).lookUp id path).2 :=
      hstart.quiet rfl rfl ⟨_ :: [], rfl, List.forall_mem_singleton.2 rfl⟩
    exact hlooked.setValue _
  | base =>
    show Puts _ id (r.value? id) [] r (start n id r)
    rwa [Run.value?_of_get? hk]
  | behaviour pipeline hooks =>
    show Puts _ id (r.value? id) [] r (start n id r)
    rwa [Run.value?_of_get? hk]

/-- Without steps there is nothing to run. -/
theorem behave_stepless (path : Path) (id : TrackerId) (r : Run) :
    behave (.reference path (.ofSteps [])) id r = (r.enter id).leave := by
  have hpass : ∀ r : Run, Run.andThen Run.pass Run.pass id r = r := by
    intro r
    show (if r.hasIssues id then r else r) = r
    exact ite_self r
  exact congrArg Run.leave (hpass (r.enter id))

/-- A default that is a path is looked up on the same tracker. -/
theorem resolving_puts (n : Nat) (path : Path) (hk : r.tree.get? id = some k)
    (hclean : k.issues = []) :
    Puts (resolving n path) id (r.tree.resolve id path) [] r (process (resolving n path) id r) := by
  have hface := face_puts (e := resolving n path) hk hclean
  rw [process_judge, hface.value?_eq hk]
  show Puts _ id (tracked (resolving n path) id r) [] r _
  generalize tracked (resolving n path) id r = v at hface ⊢
  cases v with
  | none => exact hface
  | some v =>
    show Puts _ id (some v) [] r (behave (.reference path (.ofSteps [])) id _)
    rw [behave_stepless]
    exact hface.quiet rfl rfl ⟨[.entered id], rfl, List.forall_mem_singleton.2 rfl⟩

/-- What becomes of an undefined value that is not required. -/
theorem substitute_puts (he : e.Compiled) {r' : Run} (hk : r.tree.get? id = some k)
    (hclean : k.issues = []) (h : e.Puts id none [] r r') :
    e.Puts id (defaulted e.source.props.default? id r.tree) [] r
      (substitute e.resolver e.source.props.default? id r') := by
  have hresolves := he.resolves
  cases hdefault : e.source.props.default? with
  | none =>
    rw [hdefault] at hresolves
    rw [show e.resolver = none from hresolves]
    exact h
  | some operand =>
    rw [hdefault] at hresolves
    cases operand with
    | literal v =>
      rw [show e.resolver = none from hresolves]
      exact h.setValue (some v)
    | reference path =>
      obtain ⟨n, hn⟩ := hresolves
      rw [hn]
      -- a claim does not show in what is looked up
      have htree : r'.tree = (r.tree.setValue id none).update id (·.claim e.id) := by
        rw [h.tree, TrackerTree.setValue, TrackerTree.update_update]
        refine TrackerTree.update_eq hk ?_
        rw [← hclean]
        rfl
      have hvalue : r'.tree.resolve id path = (r.tree.setValue id none).resolve id path := by
        rw [htree, resolve_claim]
      have hput := resolving_puts n path (h.get? hk) rfl
      rw [hvalue] at hput
      exact h.trans hput

/-- A value that is there and forbidden is left, with one issue. -/
theorem process_forbidden (hk : r.tree.get? id = some k) (hclean : k.issues = []) {v : Value}
    (hv : e.tracked id r = some v) (hforbidden : e.source.props.forbidden = true) :
    e.Puts id (some v) [.of "generic/forbidden" []] r (e.process id r) := by
  have hface := face_puts (e := e) hk hclean
  rw [hv] at hface
  rw [process_judge, hface.value?_eq hk]
  simp only [judge, hforbidden, if_pos]
  exact hface.record (.of "generic/forbidden" [])

/-- A value that is there and not forbidden goes through the behaviour of the kind. -/
theorem process_eq_behave (hk : r.tree.get? id = some k) (hclean : k.issues = []) {v : Value}
    (hv : e.tracked id r = some v) (hallowed : e.source.props.forbidden = false) :
    e.process id r = behave e.body id (e.face id r) := by
  rw [process_judge, (face_puts hk hclean).value?_eq hk, hv]
  simp only [judge, hallowed, if_neg Bool.false_ne_true]

theorem process_allowed (hk : r.tree.get? id = some k) (hclean : k.issues = []) {v : Value}
    (hv : e.tracked id r = some v) (hallowed : e.source.props.forbidden = false) :
    ∃ r₀, e.Puts id (some v) [] r r₀ ∧ e.process id r = behave e.body id r₀ := by
  have hface := face_puts (e := e) hk hclean
  rw [hv] at hface
  exact ⟨e.face id r, hface, process_eq_behave hk hclean hv hallowed⟩

end

/-! ## The main result -/

/-- At every address of a compiled tree, and for the entities that look up defaults too, whatever
the tree of trackers: an error-free tracker is decided by the presence rules of its entity.  An
undefined value is the only issue if it is required, and otherwise becomes the default, its value
or what its path leads to; a forbidden value is the only issue; and any other goes through the
behaviour of the kind.  What is forbidden is neither required nor has a default, so these rules do
not contradict each other. -/
theorem presence_rules {c : Chain} {root e : Entity}
    (hc : Mapper.standard.compile c = .ok root) (he : e.Within root) {id : TrackerId} {r : Run}
    {k : Tracker} (hk : r.tree.get? id = some k) (hclean : k.issues = []) :
    FitsBody e.source e.body ∧
    (e.source.props.forbidden = true →
      e.source.props.required = false ∧ e.source.props.default? = none) ∧
    match e.tracked id r with
    | none =>
      if e.source.props.required then
        e.Puts id none [.of "generic/required" []] r (e.process id r)
      else e.Puts id (defaulted e.source.props.default? id r.tree) [] r (e.process id r)
    | some v =>
      if e.source.props.forbidden then
        e.Puts id (some v) [.of "generic/forbidden" []] r (e.process id r)
      else ∃ r₀, e.Puts id (some v) [] r r₀ ∧ e.process id r = behave e.body id r₀ := by
  have hcompiled := he.compiled hc
  have hface := face_puts (e := e) hk hclean
  refine ⟨hcompiled.fits.body, hcompiled.exclusive, ?_⟩
  cases hv : e.tracked id r with
  | none =>
    rw [hv] at hface
    rw [process_judge, hface.value?_eq hk]
    cases hrequired : e.source.props.required with
    | true =>
      simp only [judge, hrequired, if_pos]
      exact hface.record (.of "generic/required" [])
    | false =>
      simp only [judge, hrequired, if_neg Bool.false_ne_true]
      exact substitute_puts hcompiled hk hclean hface
  | some v =>
    cases hforbidden : e.source.props.forbidden with
    | true => exact process_forbidden hk hclean hv hforbidden
    | false => exact process_allowed hk hclean hv hforbidden

/-- Any value, and if there is none that of the name. -/
def nickname : Chain :=
  (Chain.ofKind .any Registry.empty).defaultTo (.reference ⟨["name"]⟩)

/-- What it compiles to. -/
def nicknamed : Entity :=
  .mk 0 nickname (some (resolving 1 ⟨["name"]⟩)) (.behaviour ⟨none, []⟩ .pass)

/-- A name, and beside it no nickname. -/
def introduced : Run :=
  { tree := (((TrackerTree.ofValue none).attach 0 "name" (some (.str "Ada"))).2.attach 0
      "nickname" none).2 }

theorem presence_rules_nickname :
    Mapper.standard.compile nickname = .ok nicknamed ∧
    (∃ k, introduced.tree.get? 2 = some k ∧ k.issues = []) ∧
    nicknamed.Puts 2 (some (.str "Ada")) [] introduced (nicknamed.process 2 introduced) := by
  have hcompiled : Mapper.standard.compile nickname = .ok nicknamed := rfl
  have hwithin : nicknamed.Within nicknamed := ⟨[], nicknamed, rfl, .inl rfl⟩
  have hk : introduced.tree.get? 2 =
      some { parent := some 0, segment := some "nickname" } := rfl
  refine ⟨hcompiled, ⟨_, hk, rfl⟩, ?_⟩
  obtain ⟨-, -, h⟩ := presence_rules hcompiled hwithin hk rfl
  have hdefault : defaulted nicknamed.source.props.default? 2 introduced.tree =
      some (.str "Ada") := by cbv
  rw [← hdefault]
  exact h

end Entity

end Intake
