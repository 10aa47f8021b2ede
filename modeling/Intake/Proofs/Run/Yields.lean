import Intake.Proofs.Run.Told
/-!
# Entities tell

A stage `Yields` a change if, on a tracker without children and issues, it makes of the tracker
what the change says, with the children that it gives it, and the children tell what their
entities have made of them.

    Arranged own e → Yields e e.process e.Makes

Stages on one tracker come before and after the inspection of a list or an object.  There the
children are attached and processed; each step of the two loops adds one of them to the `Family`.
-/

namespace Intake

/-- A tracker where an entity may begin: without children and issues. -/
structure Bare (id : TrackerId) (r : Run) (k : Tracker) : Prop where
  linked : r.tree.Linked
  get : r.tree.get? id = some k
  children : k.children = []
  issues : k.hasIssues = false

theorem Bare.issues_eq {id : TrackerId} {r : Run} {k : Tracker} (h : Bare id r k) :
    k.issues = [] := by
  simpa [Tracker.hasIssues] using h.issues

/-- What a stage makes of a tracker with the children that it gives it. -/
def Yields (e : Entity) (F : Stage) (R : (String → Part) → Change) : Prop :=
  ∀ (id : TrackerId) (r : Run) (k : Tracker), Bare id r k →
    ∃ raw l, R ((F id r).tree.parts id raw) k l ∧
      Family e id raw (fun _ => True) r.tree (F id r).tree l

/-! ## Before and after the children -/

/-- A stage on the tracker alone, when it has children. -/
theorem Family.applies {e : Entity} {id : TrackerId} {raw : String → Option Value}
    {t₀ : TrackerTree} {r : Run} {k : Tracker} {G : Stage} {S : Change}
    (h : Family e id raw (fun _ => True) t₀ r.tree k) (hG : Applies G S) :
    ∃ l, S k l ∧ Family e id raw (fun _ => True) t₀ (G id r).tree l ∧
      (G id r).tree.parts id raw = r.tree.parts id raw := by
  obtain ⟨l, hS, hplace, htree⟩ := hG id r k h.get
  rw [htree]
  exact ⟨l, hS, h.put hplace, h.parts_put hplace⟩

namespace Yields

open Run

variable {e : Entity} {F G : Stage} {R R' : (String → Part) → Change} {S : Change}

theorem congr (h : Yields e F R) (hRR' : ∀ parts k l, R parts k l → R' parts k l) :
    Yields e F R' := by
  intro id r k hk
  obtain ⟨raw, l, hR, hfamily⟩ := h id r k hk
  exact ⟨raw, l, hRR' _ k l hR, hfamily⟩

theorem of_applies (h : Applies F S) : Yields e F fun _ => S := by
  intro id r k hk
  obtain ⟨l, hS, hplace, htree⟩ := h id r k hk.get
  refine ⟨fun _ => none, l, hS, ?_⟩
  rw [htree]
  exact (Family.bare hk.linked hk.get hk.children).put hplace

/-- A stage on the tracker alone, before. -/
theorem after (hF : Applies F S) (hG : Yields e G R)
    (hS : ∀ k m, S k m → m.hasIssues = k.hasIssues) :
    Yields e (fun id r => G id (F id r)) fun parts k l => ∃ m, S k m ∧ R parts m l := by
  intro id r k hk
  obtain ⟨m, hkm, hplace, htree⟩ := hF id r k hk.get
  have hg : TrackerTree.Grows id r.tree (F id r).tree := htree ▸ .put hk.linked hk.get hplace
  have hm : Bare id (F id r) m :=
    { linked := hg.linked
      get := by rw [htree, TrackerTree.get?_update_self, hk.get, Option.map_some]
      children := hplace.children.trans hk.children
      issues := (hS k m hkm).trans hk.issues }
  obtain ⟨raw, l, hR, hfamily⟩ := hG id (F id r) m hm
  exact ⟨raw, l, ⟨m, hkm, hR⟩, hfamily.since hg (by rw [htree, TrackerTree.size_update])⟩

/-- A stage on the tracker alone, after. -/
theorem before (hF : Yields e F R) (hG : Applies G S) :
    Yields e (fun id r => G id (F id r)) fun parts k l => ∃ m, R parts k m ∧ S m l := by
  intro id r k hk
  obtain ⟨raw, m, hR, hfamily⟩ := hF id r k hk
  obtain ⟨l, hS, hfamily, hparts⟩ := hfamily.applies hG
  exact ⟨raw, l, ⟨m, by rwa [hparts], hS⟩, hfamily⟩

/-- A stage that first reads the value. -/
theorem read (h : ∀ v, ∃ G, (∀ id r, r.value? id = v → F id r = G id r) ∧
    Yields e G fun parts k l => k.value = v → R parts k l) : Yields e F R := by
  intro id r k hk
  obtain ⟨G, hG, hyields⟩ := h k.value
  obtain ⟨raw, l, hR, hfamily⟩ := hyields id r k hk
  rw [hG id r (value?_of_get? hk.get)]
  exact ⟨raw, l, hR rfl, hfamily⟩

theorem cond {b : Bool} (hF : Yields e F R) (hG : Yields e G R') :
    Yields e (fun id r => if b then F id r else G id r)
      fun parts k l => if b then R parts k l else R' parts k l := by
  cases b with
  | false => exact hG
  | true => exact hF

theorem andThen_before (hF : Yields e F R) (hG : Applies G S) :
    Yields e (Run.andThen F G) fun parts => (R parts).andThen S := by
  have hrest : Applies (fun id r => if r.hasIssues id then r else G id r)
      fun k l => if k.hasIssues then l = k else S k l :=
    .read (H := fun _ b id r => if b then r else G id r)
      (T := fun _ b k l => if b then l = k else S k l) fun _ _ => .cond .pass hG
  exact before (G := fun id r => if r.hasIssues id then r else G id r) hF hrest

theorem andThen_after (hF : Applies F S) (hG : Yields e G R) :
    Yields e (Run.andThen F G) fun parts => S.andThen (R parts) := by
  intro id r k hk
  obtain ⟨m, hkm, hplace, htree⟩ := hF id r k hk.get
  have hg : TrackerTree.Grows id r.tree (F id r).tree := htree ▸ .put hk.linked hk.get hplace
  have hsize : (F id r).tree.size = r.tree.size := by rw [htree, TrackerTree.size_update]
  have get : (F id r).tree.get? id = some m := by
    rw [htree, TrackerTree.get?_update_self, hk.get, Option.map_some]
  have hchildren := hplace.children.trans hk.children
  cases hi : m.hasIssues with
  | true =>
    rw [andThen_of_issues ((hasIssues_of_get? get).trans hi)]
    refine ⟨fun _ => none, m, ⟨m, hkm, by rw [hi, if_pos rfl]⟩, ?_⟩
    exact (Family.bare hg.linked get hchildren).since hg hsize
  | false =>
    obtain ⟨raw, l, hR, hfamily⟩ := hG id (F id r) m ⟨hg.linked, get, hchildren, hi⟩
    rw [andThen_of_clean ((hasIssues_of_get? get).trans hi)]
    refine ⟨raw, l, ⟨m, hkm, ?_⟩, hfamily.since hg hsize⟩
    rw [hi, if_neg Bool.false_ne_true]
    exact hR

theorem runPipeline (p : Pipeline) (hF : Yields e F R) (hG : Applies G S) :
    Yields e (Run.runPipeline p F G) fun parts => Change.pipeline p (R parts) S := by
  have hrest : Yields e (Run.andThen F (Run.runSteps G p.steps))
      fun parts => (R parts).andThen (Change.steps S p.steps) :=
    andThen_before hF (.runSteps hG p.steps)
  unfold Run.runPipeline Change.pipeline
  cases p.format with
  | none => exact hrest
  | some s => exact andThen_after (.runStep s) hrest

/-! ## Entities -/

theorem behave {body : Body}
    (h : ∀ pipeline hooks, body = .behaviour pipeline hooks →
      Yields e (Entity.inspect hooks) (Change.inspects · hooks)) :
    Yields e (Entity.behave body) (Change.behaves · body) := by
  -- entering and leaving leave the tree as it is
  have inside : ∀ {F : Stage} {R : (String → Part) → Change}, Yields e F R →
      Yields e (fun id r => (F id (r.enter id)).leave) R := by
    intro F R hF id r k hk
    exact hF id (r.enter id) k ⟨hk.linked, hk.get, hk.children, hk.issues⟩
  cases body with
  | base => exact of_applies .pass
  | reference path pipeline => exact inside (runPipeline pipeline (of_applies .pass) .pass)
  | behaviour pipeline hooks =>
    exact inside (runPipeline pipeline (h pipeline hooks rfl) (.convert hooks))

/-- The stages of an entity one after the other. -/
theorem process {n : Nat} {source : Chain} {resolver : Option Entity} {body : Body}
    (hsubstitute : Yields e (Entity.substitute resolver source.props.default?)
      fun _ => Change.substitutes source.props.default?)
    (hbehave : Yields e (Entity.behave body) (Change.behaves · body)) :
    Yields e (Entity.process (.mk n source resolver body))
      (Entity.Makes · (.mk n source resolver body)) := by
  have hjudge : Yields e (fun id r => Entity.judge source resolver body (r.value? id) id r)
      fun parts => Change.judges parts source body := by
    refine read fun v => ⟨Entity.judge source resolver body v, fun id r hv => by rw [hv], ?_⟩
    cases v with
    | none =>
      refine congr (cond (of_applies (.record _)) hsubstitute) fun parts k l h hv => ?_
      unfold Change.judges
      rw [hv]
      exact h
    | some v =>
      refine congr (cond (of_applies (.record _)) hbehave) fun parts k l h hv => ?_
      unfold Change.judges
      rw [hv]
      exact h
  have hreplace : ∀ k m, Change.replaces body k m → m.hasIssues = k.hasIssues := by
    intro k m h
    obtain ⟨v, rfl⟩ := Change.replaces_eq h
    rfl
  have hstages := after (.start n) (after (.replace body) hjudge hreplace)
    fun k m h => by rw [h]; rfl
  unfold Entity.process
  refine congr hstages fun parts k l h => ?_
  obtain ⟨_, rfl, m, hm, hl⟩ := h
  exact ⟨m, hm, hl⟩

/-- A default is put in place, by its resolver if it is a path. -/
theorem substitute {default? : Option Operand} {resolver : Option Entity}
    (hr : Entity.Resolves default? resolver) :
    Yields e (Entity.substitute resolver default?) fun _ => Change.substitutes default? := by
  cases default? with
  | none =>
    obtain rfl : resolver = none := hr
    exact of_applies .pass
  | some operand =>
    cases operand with
    | literal v =>
      obtain rfl : resolver = none := hr
      exact of_applies (.setValue (some v))
    | reference path =>
      obtain ⟨n, rfl⟩ := hr
      have hlookUp : Yields e (Entity.process
          (.mk n (.ofPath path) none (.reference path (.ofSteps []))))
          (Entity.Makes · (.mk n (.ofPath path) none (.reference path (.ofSteps [])))) :=
        process (of_applies .pass) (behave fun pipeline hooks h => by cases h)
      refine congr hlookUp fun parts k l h => ⟨n, ?_⟩
      obtain ⟨m, ⟨v, rfl⟩, hjudges⟩ := h
      refine ⟨v, ?_⟩
      -- a reference without rules and steps is done once it has been looked up
      have hrest : Change.judges parts (.ofPath path) (.reference path (.ofSteps []))
          ((k.claim n).setValue v) l := hjudges
      cases v with
      | none => exact hrest
      | some v =>
        obtain ⟨m, rfl, hm⟩ := hrest
        split at hm
        · exact hm
        · exact hm

end Yields

end Intake
