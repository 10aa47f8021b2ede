import Intake.Proofs.Entity.Arranged
import Intake.Proofs.Run.Stages
import Intake.Proofs.Tracker.Growth
/-!
# Local stages

Most of what a run does on a tracker stays on that tracker: it changes what the tracker carries,
notes an event about it, reads its value and whether it has issues, and looks up paths.
`Local core paths F` says that the stage `F` is made of nothing else, apart from the stages in
`core`, and looks up no path outside of `paths`.

    Local (Inspects body) (references e) (process e)

Whatever the parts of a local stage keep, the stage keeps (`Local.keeps`), and whatever they keep
between two runs, the stage keeps between them (`Local.agrees`).  What is left of an entity after
that is the inspection of a list or of an object, which works on children.
-/

namespace Intake

namespace Event

/-- The tracker that an event is about. -/
def tracker : Event → TrackerId
  | .began _ id => id
  | .entered id => id
  | .lookedUp id _ _ _ => id
  | .called id _ _ _ => id

def isLookUp : Event → Bool
  | .lookedUp _ _ _ _ => true
  | _ => false

end Event

/-- A stage made of work on its own tracker and of the stages in `core`. -/
inductive Local (core : Stage → Prop) (paths : List Path) : Stage → Prop
  | core {F : Stage} (h : core F) : Local core paths F
  | pass : Local core paths Run.pass
  | touch {f : Tracker → Tracker} (h : Tracker.OnContent f) :
      Local core paths fun id r => r.mapTree (·.update id f)
  | note {e : TrackerId → Event} (h : ∀ id, (e id).tracker = id ∧ (e id).isLookUp = false) :
      Local core paths fun id r => r.note (e id)
  | tally {g : Run → Run} (n : Nat)
      (h : ∀ r, (g r).tree = r.tree ∧ (g r).trace = r.trace ∧ (g r).steps = r.steps + n) :
      Local core paths fun _ r => g r
  | seq {F G : Stage} (hF : Local core paths F) (hG : Local core paths G) :
      Local core paths fun id r => G id (F id r)
  | read {F : Option Value → Bool → Stage} (h : ∀ v b, Local core paths (F v b)) :
      Local core paths fun id r => F (r.value? id) (r.hasIssues id) id r
  | lookUp {path : Path} (hp : path ∈ paths) {F : Option Value → Stage}
      (h : ∀ v, Local core paths (F v)) :
      Local core paths fun id r => F (r.lookUp id path).1 id (r.lookUp id path).2

/-- What each part of a local stage on the tracker `id` has to keep. -/
structure Keeps (paths : List Path) (id : TrackerId) (Inv : Run → Prop) : Prop where
  touch : ∀ {f r}, Tracker.OnContent f → Inv r → Inv (r.mapTree (·.update id f))
  note : ∀ {event r}, event.tracker = id → event.isLookUp = false → Inv r → Inv (r.note event)
  tally : ∀ {r r'}, r'.tree = r.tree → r'.trace = r.trace → Inv r → Inv r'
  lookUp : ∀ {path r}, path ∈ paths → Inv r → Inv (r.lookUp id path).2

theorem Keeps.enter {paths : List Path} {id : TrackerId} {Inv : Run → Prop}
    (h : Keeps paths id Inv) {r : Run} (hr : Inv r) : Inv (r.enter id) :=
  h.note rfl rfl (h.tally (r := r) rfl rfl hr)

/-- What each part of a local stage has to keep between a run on the tracker `i` and one on the
tracker `j`. -/
structure Agrees (paths : List Path) (i j : TrackerId) (Rel : Run → Run → Prop) : Prop where
  value : ∀ {r s}, Rel r s → r.value? i = s.value? j
  issues : ∀ {r s}, Rel r s → r.hasIssues i = s.hasIssues j
  touch : ∀ {f r s}, Tracker.OnContent f → Rel r s →
    Rel (r.mapTree (·.update i f)) (s.mapTree (·.update j f))
  note : ∀ {event event' r s}, event.tracker = i → event'.tracker = j → Rel r s →
    Rel (r.note event) (s.note event')
  tally : ∀ {n r r' s s'}, r'.tree = r.tree ∧ r'.trace = r.trace ∧ r'.steps = r.steps + n →
    s'.tree = s.tree ∧ s'.trace = s.trace ∧ s'.steps = s.steps + n → Rel r s → Rel r' s'
  lookUp : ∀ {path r s}, path ∈ paths → Rel r s → (r.lookUp i path).1 = (s.lookUp j path).1 ∧
    Rel (r.lookUp i path).2 (s.lookUp j path).2

namespace Local

open Run

variable {core : Stage → Prop} {paths : List Path} {F G : Stage}

/-- What the parts of a local stage keep, the stage keeps. -/
theorem keeps (h : Local core paths F) {id : TrackerId} {Inv : Run → Prop}
    (hInv : Keeps paths id Inv) (hcore : ∀ G, core G → ∀ r, Inv r → Inv (G id r)) {r : Run}
    (hr : Inv r) : Inv (F id r) := by
  induction h generalizing r with
  | core h => exact hcore _ h _ hr
  | pass => exact hr
  | touch h => exact hInv.touch h hr
  | note h => exact hInv.note (h id).1 (h id).2 hr
  | tally n h => exact hInv.tally (h r).1 (h r).2.1 hr
  | seq _ _ ihF ihG => exact ihG (ihF hr)
  | read _ ih => exact ih _ _ hr
  | lookUp hp _ ih => exact ih _ (hInv.lookUp hp hr)

/-- So it is if the stage has no other parts. -/
theorem keeps_own (h : Local (fun _ => False) paths F) {id : TrackerId} {Inv : Run → Prop}
    (hInv : Keeps paths id Inv) {r : Run} (hr : Inv r) : Inv (F id r) :=
  h.keeps hInv (fun _ hG => hG.elim) hr

/-- What the parts of a local stage keep between two runs, the stage keeps. -/
theorem agrees (h : Local core paths F) {i j : TrackerId} {Rel : Run → Run → Prop}
    (hRel : Agrees paths i j Rel)
    (hcore : ∀ G, core G → ∀ r s, Rel r s → Rel (G i r) (G j s)) {r s : Run} (hrs : Rel r s) :
    Rel (F i r) (F j s) := by
  induction h generalizing r s with
  | core h => exact hcore _ h _ _ hrs
  | pass => exact hrs
  | touch h => exact hRel.touch h hrs
  | note h => exact hRel.note (h i).1 (h j).1 hrs
  | tally n h => exact hRel.tally (h r) (h s) hrs
  | seq _ _ ihF ihG => exact ihG (ihF hrs)
  | @read F _ ih =>
    show Rel (F (r.value? i) (r.hasIssues i) i r) (F (s.value? j) (s.hasIssues j) j s)
    rw [hRel.value hrs, hRel.issues hrs]
    exact ih _ _ hrs
  | @lookUp path hp F _ ih =>
    show Rel (F (r.lookUp i path).1 i (r.lookUp i path).2)
      (F (s.lookUp j path).1 j (s.lookUp j path).2)
    rw [(hRel.lookUp hp hrs).1]
    exact ih _ (hRel.lookUp hp hrs).2

/-! ## Single stages -/

theorem setValue (value : Option Value) : Local core paths fun id r => r.setValue id value :=
  .touch (Tracker.onContent_setValue value)

theorem record (issue : Issue) : Local core paths fun id r => r.record id issue :=
  .touch (Tracker.onContent_record issue)

theorem records (issues : List Issue) :
    Local core paths fun id r => issues.foldl (fun r issue => r.record id issue) r := by
  induction issues with
  | nil => exact .pass
  | cons issue rest ih => exact .seq (.record issue) ih

theorem cond (b : Bool) (hF : Local core paths F) (hG : Local core paths G) :
    Local core paths fun id r => if b then F id r else G id r := by
  cases b with
  | false => exact hG
  | true => exact hF

theorem andThen (hF : Local core paths F) (hG : Local core paths G) :
    Local core paths (Run.andThen F G) := by
  have hrest : Local core paths fun id r => if r.hasIssues id then r else G id r :=
    .read (F := fun _ b id r => if b then r else G id r) fun _ b => .cond b .pass hG
  exact .seq (G := fun id r => if r.hasIssues id then r else G id r) hF hrest

theorem operands {K : Arguments → Stage} (args : List Operand)
    (hargs : ∀ path ∈ args.filterMap (·.path?), path ∈ paths)
    (hK : ∀ values, Local core paths (K values)) :
    Local core paths fun id r =>
      K (Run.operands id args r).1 id (Run.operands id args r).2 := by
  induction args generalizing K with
  | nil => exact hK []
  | cons arg rest ih =>
    cases arg with
    | literal v => exact ih hargs fun values => hK (some v :: values)
    | reference path =>
      have hrest : ∀ path ∈ rest.filterMap (·.path?), path ∈ paths :=
        fun p hp => hargs p (List.mem_cons_of_mem _ hp)
      exact .lookUp (hargs path List.mem_cons_self)
        fun v => ih hrest fun values => hK (v :: values)

theorem runStep (s : CompiledStep) (hs : ∀ path ∈ s.args.filterMap (·.path?), path ∈ paths) :
    Local core paths (Run.runStep s) := by
  -- what is left of the step once its arguments and the value are known
  have hcall : ∀ (args : Arguments) (value : Value), Local core paths fun id r =>
      let result := s.processor.run value args
      (issuesOf s.processor.key result).foldl (fun r issue => r.record id issue)
        (({ r with steps := r.steps + 1 }.note (.called id s.processor.key value args)).setValue
          id (some result.value)) := by
    intro args value
    have hnote : Local core paths fun id r =>
        { r with steps := r.steps + 1 }.note (.called id s.processor.key value args) :=
      .seq (.tally (g := fun r => { r with steps := r.steps + 1 }) 1 fun _ => ⟨rfl, rfl, rfl⟩)
        (.note (e := fun id => .called id s.processor.key value args) fun _ => ⟨rfl, rfl⟩)
    exact .seq (.seq hnote (.setValue _)) (.records _)
  exact .operands (K := fun args id r =>
      let value := (r.value? id).getD .null
      let result := s.processor.run value args
      (issuesOf s.processor.key result).foldl (fun r issue => r.record id issue)
        (({ r with steps := r.steps + 1 }.note (.called id s.processor.key value args)).setValue
          id (some result.value)))
    s.args hs fun args => .read fun v _ => hcall args (v.getD .null)

theorem runSteps {last : Stage} (hlast : Local core paths last) {steps : List CompiledStep}
    (hs : ∀ s ∈ steps, ∀ path ∈ s.args.filterMap (·.path?), path ∈ paths) :
    Local core paths (Run.runSteps last steps) := by
  induction steps with
  | nil => exact hlast
  | cons s rest ih =>
    exact .andThen (.runStep s (hs s List.mem_cons_self))
      (ih fun s' hs' => hs s' (List.mem_cons_of_mem _ hs'))

theorem runPipeline {p : Pipeline} (hp : ∀ path ∈ p.references, path ∈ paths)
    (hF : Local core paths F) (hG : Local core paths G) :
    Local core paths (Run.runPipeline p F G) := by
  have hstep : ∀ s ∈ p.toList, ∀ path ∈ s.args.filterMap (·.path?), path ∈ paths :=
    fun s hs path hpath => hp path (List.mem_flatMap.2 ⟨s, hs, hpath⟩)
  have hrest : Local core paths (Run.andThen F (Run.runSteps G p.steps)) :=
    .andThen hF (.runSteps hG fun s hs => hstep s (List.mem_append_right _ hs))
  unfold Run.runPipeline
  cases hf : p.format with
  | none => exact hrest
  | some s => exact .andThen (.runStep s (hstep s (by simp [Pipeline.toList, hf]))) hrest

theorem check (key : String) (accepts : Value → Bool) :
    Local core paths (Run.check key accepts) :=
  .read (F := fun v _ id r => if v.any accepts then r else r.record id (.of key []))
    fun v _ => .cond (v.any accepts) .pass (.record _)

theorem writeDate (format : Option String) : Local core paths (Run.writeDate format) := by
  cases format with
  | none => exact .pass
  | some pattern =>
    rw [writeDate_eq]
    refine .read (F := fun v _ id r =>
      (((v.bind Value.asString?).bind Date.readIso).bind (·.write pattern)).elim r
        fun text => r.setValue id (some (.str text))) fun v _ => ?_
    cases ((v.bind Value.asString?).bind Date.readIso).bind (·.write pattern) with
    | none => exact .pass
    | some text => exact .setValue _

theorem inspectCustom (hooks : CustomHooks) : Local core paths (Run.inspectCustom hooks) :=
  .read (F := fun v _ id r => (hooks.inspect v).foldl (fun r issue => r.record id issue) r)
    fun v _ => .records (hooks.inspect v)

theorem convertCustom (hooks : CustomHooks) : Local core paths (Run.convertCustom hooks) :=
  .read (F := fun v _ id r => r.setValue id (hooks.convert v)) fun _ _ => .setValue _

theorem inspectList_none : Local core paths (Run.inspectList none) := by
  rw [inspectList_none_eq]
  exact .read (F := fun v _ id r =>
      if (v.bind Value.asList?).isSome then r else r.record id (.of "array/type" []))
    fun v _ => .cond _ .pass (.record _)

end Local

/-! ## Entities -/

namespace Entity

open Run

/-- The inspection that is part of a body. -/
def Inspects (body : Body) (F : Stage) : Prop :=
  ∃ pipeline hooks, body = .behaviour pipeline hooks ∧ F = inspect hooks

variable {core : Stage → Prop} {paths : List Path}

theorem mem_distinct {path : Path} {l : List Path} : path ∈ distinct l ↔ path ∈ l := by
  have hfold : ∀ (l done : List Path),
      path ∈ l.foldl (fun done p => if p ∈ done then done else done ++ [p]) done ↔
        path ∈ done ∨ path ∈ l := by
    intro l
    induction l with
    | nil => simp
    | cons p rest ih =>
      intro done
      rw [List.foldl_cons, ih]
      split
      · next hp =>
        constructor
        · rintro (h | h)
          · exact .inl h
          · exact .inr (List.mem_cons_of_mem _ h)
        · rintro (h | h)
          · exact .inl h
          · rcases List.mem_cons.1 h with rfl | h
            · exact .inl hp
            · exact .inr h
      · simp [or_assoc]
  simpa [distinct] using hfold l []

theorem local_replace {body : Body} (h : ∀ path, target? body = some path → path ∈ paths) :
    Local core paths (replace body) := by
  cases body with
  | base => exact .pass
  | reference path pipeline =>
    exact .lookUp (F := fun v id r => r.setValue id v) (h path rfl) fun v => .setValue v
  | behaviour pipeline hooks => exact .pass

theorem local_convert (hooks : Hooks) : Local core paths (convert hooks) := by
  cases hooks with
  | date format => exact .writeDate format
  | custom hooks => exact .convertCustom hooks
  | _ => exact .pass

theorem local_behave {body : Body} (hrefs : ∀ path ∈ bodyReferences body, path ∈ paths)
    (hinspect : ∀ F, Inspects body F → Local core paths F) :
    Local core paths (behave body) := by
  have enter : Local core paths fun id r => r.enter id :=
    .seq (G := fun id r => r.note (.entered id))
      (.tally (g := fun r =>
        { r with depth := r.depth + 1, maxDepth := max r.maxDepth (r.depth + 1) })
        0 fun _ => ⟨rfl, rfl, rfl⟩)
      (.note fun _ => ⟨rfl, rfl⟩)
  have inside : ∀ {F : Stage}, Local core paths F →
      Local core paths fun id r => (F id (r.enter id)).leave :=
    fun hF => .seq (.seq enter hF) (.tally (g := Run.leave) 0 fun _ => ⟨rfl, rfl, rfl⟩)
  cases body with
  | base => exact .pass
  | reference path pipeline => exact inside (.runPipeline hrefs .pass .pass)
  | behaviour pipeline hooks =>
    have hp : ∀ path ∈ pipeline.references, path ∈ paths :=
      fun path hpath => hrefs path (List.mem_append_left _ hpath)
    exact inside (.runPipeline hp (hinspect _ ⟨pipeline, hooks, rfl, rfl⟩) (local_convert hooks))

/-- An entity takes a tracker over. -/
def start (entity : Nat) : Stage := fun id r =>
  (r.mapTree (·.update id (·.claim entity))).note (.began entity id)

theorem local_start (entity : Nat) : Local core paths (start entity) :=
  .seq (G := fun id r => r.note (.began entity id)) (.touch (Tracker.onContent_claim entity))
    (.note fun _ => ⟨rfl, rfl⟩)

/-- What an entity does with a value by its presence rules. -/
def judge (source : Chain) (resolver : Option Entity) (body : Body) (value : Option Value) :
    Stage := fun id r =>
  match value with
  | none =>
    if source.props.required then r.record id (.of "generic/required" [])
    else substitute resolver source.props.default? id r
  | some _ =>
    if source.props.forbidden then r.record id (.of "generic/forbidden" [])
    else behave body id r

theorem process_eq {id : Nat} {source : Chain} {resolver : Option Entity} {body : Body}
    (hreplace : Local core paths (replace body))
    (hsubstitute : Local core paths (substitute resolver source.props.default?))
    (hbehave : Local core paths (behave body)) :
    ∃ G, Local core paths G ∧
      process (.mk id source resolver body) = fun t r => G t (start id t r) := by
  have hjudge : ∀ v, Local core paths (judge source resolver body v) := by
    intro v
    cases v with
    | none => exact .cond _ (.record _) hsubstitute
    | some _ => exact .cond _ (.record _) hbehave
  refine ⟨_, .seq hreplace (.read fun v _ => hjudge v), ?_⟩
  unfold process
  rfl

theorem local_substitute {default? : Option Operand} {resolver : Option Entity}
    (hr : Resolves default? resolver)
    (hpath : ∀ path, default?.bind (·.path?) = some path → path ∈ paths) :
    Local core paths (substitute resolver default?) := by
  cases default? with
  | none =>
    obtain rfl : resolver = none := hr
    exact .pass
  | some operand =>
    cases operand with
    | literal v =>
      obtain rfl : resolver = none := hr
      exact .setValue (some v)
    | reference path =>
      obtain ⟨id, rfl⟩ := hr
      have hmem : path ∈ paths := hpath path rfl
      have hlocal : Local core paths (behave (.reference path (.ofSteps []))) := by
        refine local_behave ?_ ?_
        · simp [bodyReferences, Pipeline.references, Pipeline.toList, Pipeline.ofSteps]
        · rintro F ⟨pipeline, hooks, he, -⟩
          cases he
      obtain ⟨G, hG, he⟩ : ∃ G, Local core paths G ∧
          process (.mk id (.ofPath path) none (.reference path (.ofSteps []))) =
            fun t r => G t (start id t r) :=
        process_eq (local_replace fun p hp => Option.some.inj hp ▸ hmem) .pass hlocal
      rw [substitute, he]
      exact .seq (local_start id) hG

/-- All that an entity does, but for the inspection of its kind, is local, and it looks up no
other paths than its references. -/
theorem process_local {id : Nat} {source : Chain} {resolver : Option Entity} {body : Body}
    (hr : Resolves source.props.default? resolver) :
    ∃ G, Local (Inspects body) (references (.mk id source resolver body)) G ∧
      process (.mk id source resolver body) = fun t r => G t (start id t r) := by
  have hmem : ∀ path, path ∈ references (.mk id source resolver body) ↔
      (target? body = some path ∨ source.props.default?.bind (·.path?) = some path) ∨
        path ∈ bodyReferences body := by
    intro path
    simp [references, mem_distinct, or_assoc]
  refine process_eq (local_replace fun path hp => ?_) (local_substitute hr fun path hp => ?_)
    (local_behave (fun path hp => ?_) fun F hF => .core hF)
  · exact (hmem path).2 (.inl (.inl hp))
  · exact (hmem path).2 (.inl (.inr hp))
  · exact (hmem path).2 (.inr hp)

/-- The kinds without items and members inspect on their own tracker. -/
theorem local_of_single {body : Body} (hb : Single body) {F : Stage} (hF : Inspects body F) :
    Local core paths F := by
  obtain ⟨pipeline, hooks, rfl, rfl⟩ := hF
  cases hooks with
  | pass => exact .pass
  | check type => exact .check _ _
  | date format => exact .check _ _
  | array items =>
    cases items with
    | none => exact .inspectList_none
    | some items => exact hb.elim
  | object members schedule policy escaping => exact hb.elim
  | custom hooks => exact .inspectCustom hooks

theorem keeps_of_single {body : Body} (hb : Single body) {F : Stage} (hF : Inspects body F)
    {id : TrackerId} {Inv : Run → Prop} (hInv : Keeps [] id Inv) {r : Run} (hr : Inv r) :
    Inv (F id r) := by
  have hlocal : Local (fun _ => False) [] F := local_of_single hb hF
  exact hlocal.keeps_own hInv hr

theorem agrees_of_single {body : Body} (hb : Single body) {F : Stage} (hF : Inspects body F)
    {i j : TrackerId} {Rel : Run → Run → Prop} (hRel : Agrees [] i j Rel) {r s : Run}
    (hrs : Rel r s) : Rel (F i r) (F j s) := by
  have hlocal : Local (fun _ => False) [] F := local_of_single hb hF
  exact hlocal.agrees hRel (fun _ h => h.elim) hrs

end Entity

end Intake
