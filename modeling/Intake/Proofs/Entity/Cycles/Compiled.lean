import Intake.Proofs.Chain.Reading
import Intake.Proofs.Entity.Fits
/-!
# Trees that compile

In a compiled tree of objects, scalars and references, what is looked up runs before: if a path
leads to another member, that member runs before in the object that decides, and if it comes back
into the branch of its reader, the order is that of the object that it comes back to
(`before_of_reads`).  Since the members of an object run in an order, nothing in the tree closes a
cycle:

    standard.compile c = .ok e → ¬ c.Faulty
-/

namespace Intake

open Relation

/-! ## What an entity looks up -/

namespace Pipeline

theorem references_ofSteps (steps : List Step) :
    (ofSteps steps).references = steps.flatMap (·.references) := by
  rw [references, toList_ofSteps, List.flatMap_map]
  rfl

end Pipeline

namespace Entity

/-- The paths that come from inside of a body. -/
def escapingOf : Body → List Path
  | .behaviour _ hooks => hookReferences hooks
  | _ => []

/-- An entity looks up what its chain does and what comes from inside. -/
theorem mem_references_iff {n : Nat} {source : Chain} {resolver : Option Entity} {body : Body}
    {path : Path} (h : FitsBody source body) (hcustom : ∀ name, source.kind ≠ .custom name) :
    path ∈ (mk n source resolver body).references ↔
      path ∈ source.reads ∨ path ∈ escapingOf body := by
  rw [references, mem_distinct, Chain.reads, List.mem_append, List.mem_append, List.mem_append,
    List.mem_append]
  generalize hk : source.kind = kind
  cases h.fitted hk with
  | custom name => exact absurd hk (hcustom name)
  | reference target =>
    simp [target?, bodyReferences, escapingOf, Pipeline.references_ofSteps, eq_comm]
  | _ => simp [target?, bodyReferences, escapingOf, Pipeline.references_ofSteps, or_assoc]

/-- An entity looks up only what its chain does and what comes from inside. -/
theorem reads_of_references {n : Nat} {source : Chain} {resolver : Option Entity} {body : Body}
    {path : Path} (h : FitsBody source body)
    (hpath : path ∈ (mk n source resolver body).references) :
    path ∈ source.reads ∨ path ∈ escapingOf body := by
  by_cases hcustom : ∃ name, source.kind = .custom name
  · obtain ⟨name, hk⟩ := hcustom
    cases h.fitted hk
    simp only [references, mem_distinct, target?, bodyReferences, Option.toList_none,
      List.nil_append, List.append_nil] at hpath
    exact .inl (List.mem_append_left _ (List.mem_append_right _ hpath))
  · exact (mem_references_iff h fun name hk => hcustom ⟨name, hk⟩).1 hpath

end Entity

namespace Chain

/-- An object, a scalar or a reference that has no error of its own. -/
structure Plain (c : Chain) : Prop where
  array : c.tag ≠ .array
  custom : ∀ name, c.tag ≠ .custom name
  names : ∀ fields, c.kind = .object fields → (fields.map (·.1)).Nodup
  presence : c.checkPresence = .ok ()
  outputFormat : c.kind = .date → c.checkOutputFormat = .ok ()

end Chain

/-! ## Compilations that succeed -/

namespace Entity

/-- In the object at an address, the member `p` runs before the member `s`. -/
def Before (e : Entity) (object : List String) (p s : String) : Prop :=
  ∃ schedule, (e.at? object).bind (·.schedule?) = some schedule ∧ Schedule.Joins schedule.edges p s

/-- The members of an object run in an order. -/
theorem Arranged.not_before_cycle {own : Option String} {e : Entity} {object : List String}
    (h : Arranged own e) (name : String) :
    ¬ TransGen (e.Before object) name name := by
  intro hcycle
  obtain ⟨_, ⟨schedule, hschedule, -⟩, -⟩ := TransGen.head'_iff.1 hcycle
  obtain ⟨inner, hi, hs⟩ := Option.bind_eq_some_iff.1 hschedule
  obtain ⟨own', hinner⟩ := h.at? hi
  obtain ⟨_, _, _, _, -, ha, -⟩ := hinner.of_schedule? hs
  refine ha.sound.acyclic name (TransGen.mono (fun p s hbefore => ?_) _ _ hcycle)
  obtain ⟨schedule', hschedule', hj⟩ := hbefore
  exact Option.some.inj (hschedule.symm.trans hschedule') ▸ hj

/-- An entity of a plain chain looks up what its chain does and what comes from inside. -/
theorem Fits.mem_references_iff {e : Entity} {path : Path} (h : e.Fits) (hplain : e.source.Plain) :
    path ∈ e.references ↔ path ∈ e.source.reads ∨ path ∈ escapingOf e.body := by
  obtain ⟨n, source, resolver, body⟩ := e
  exact Entity.mem_references_iff h.body fun name hk =>
    hplain.custom name (congrArg Kind.tag hk)

/-- An entity with items is that of an array. -/
theorem FitsBody.tag_of_array {source : Chain} {pipeline : Pipeline} {items : Option Entity}
    (h : FitsBody source (.behaviour pipeline (.array items))) : source.tag = .array := by
  unfold Chain.tag
  generalize hk : source.kind = kind
  cases h.fitted hk <;> rfl

/-- What a chain inside of a compiled one looks up, and no object on the way decides, the entity
looks up. -/
theorem mem_references_of_reads {own : Option String} {e : Entity} {reader : List String}
    {path : Path} {first : String} (h : Arranged own e) (hfits : e.Throughout Fits)
    (hplain : e.source.Throughout Chain.Plain) (hreads : e.source.Reads reader path)
    (hfirst : path.first? = some first) (hentry : e.source.entry? first reader = none)
    (hown : reader ≠ [] → own ≠ some first) : path ∈ e.references := by
  induction reader generalizing own e with
  | nil =>
    obtain ⟨inner, hinner, hpath⟩ := hreads
    obtain rfl := Option.some.inj hinner
    exact ((hfits [] e rfl).mem_references_iff (hplain [] _ rfl)).2 (.inl hpath)
  | cons s rest ih =>
    obtain ⟨inner, hinner, hpath⟩ := hreads
    rw [Chain.at?_cons, Option.bind_eq_some_iff] at hinner
    obtain ⟨member, hm, hinner⟩ := hinner
    obtain ⟨hentry', hfirst'⟩ := (Chain.entry?_cons_eq_none hm).1 hentry
    rw [(hfits [] e rfl).child?_eq, Option.map_eq_some_iff] at hm
    obtain ⟨entity, hentity, rfl⟩ := hm
    have hsource := (hfits [] e rfl).child? hentity
    have hne : s ≠ first := by
      rintro rfl
      exact absurd (hsource.symm.trans hfirst') nofun
    cases h with
    | single hr hb => exact absurd ((child?_of_single hb s).symm.trans hentity) nofun
    | array hr hi => exact absurd (hfits [] _ rfl).body.tag_of_array (hplain [] _ rfl).array
    | @object _ n source resolver pipeline members schedule policy escaping hr ha hm =>
      have hentity : Table.get? members s = some entity := hentity
      have hmem := ih (hm _ (Table.mem_of_get? hentity)) (hfits.child hentity)
        (hplain.child hsource) ⟨inner, hinner, hpath⟩ hentry' fun _ hs => hne (Option.some.inj hs)
      obtain ⟨tail, hsegments⟩ := Path.segments_of_first? hfirst
      have hnames : first ∉ members.map (·.1) := by
        rw [(hfits [] _ rfl).child?_eq, Option.map_eq_none_iff] at hfirst'
        exact Table.get?_eq_none_iff.1 hfirst'
      have hescapes : path ∈ escaping := by
        rcases ha.leads hentity hmem hsegments with hs | ⟨hs, -⟩ | ⟨-, hs, -⟩ | ⟨-, -, hs⟩
        · exact absurd hs.symm hne
        · exact absurd hs hnames
        · exact absurd hs (hown (List.cons_ne_nil _ _))
        · exact hs
      exact ((hfits [] _ rfl).mem_references_iff (hplain [] _ rfl)).2 (.inr hescapes)

/-- In a plain tree only objects hold something, so what is held has a name. -/
theorem Arranged.member {own : Option String} {e member : Entity} {s : String} (h : Arranged own e)
    (hfits : e.Fits) (hplain : e.source.Plain) (hm : e.child? s = some member) :
    Arranged (some s) member := by
  cases h with
  | single hr hb => exact absurd ((child?_of_single hb s).symm.trans hm) nofun
  | array hr hi => exact absurd hfits.body.tag_of_array hplain.array
  | object hr ha hmembers => exact hmembers _ (Table.mem_of_get? hm)

/-- A path of a member of an object, by its first segment: the member of that name runs before, and
through the own name of the object the path comes to a member that does. -/
theorem before_of_references {own : Option String} {e member : Entity} {s first : String}
    {path : Path} {rest : List String} (h : Arranged own e) (hfits : e.Fits)
    (hplain : e.source.Plain) (hm : e.child? s = some member) (hpath : path ∈ member.references)
    (hsegments : path.segments = first :: rest) :
    (first ≠ s → (e.source.kind.child? first).isSome → e.Before [] first s) ∧
    (e.source.kind.child? first = none → own = some first → ∃ second rest', rest = second :: rest' ∧
      ((e.source.kind.child? second).isSome → e.Before [] second s)) := by
  cases h with
  | single hr hb => exact absurd ((child?_of_single hb s).symm.trans hm) nofun
  | array hr hi => exact absurd hfits.body.tag_of_array hplain.array
  | @object _ n source resolver pipeline members schedule policy escaping hr ha hmembers =>
    have hbefore : ∀ {p}, Schedule.Joins schedule.edges p s →
        (mk n source resolver
          (.behaviour pipeline (.object members schedule policy escaping))).Before [] p s :=
      fun hj => ⟨schedule, rfl, hj⟩
    have hnames : ∀ name, name ∈ members.map (·.1) ↔ ((mk n source resolver
        (.behaviour pipeline (.object members schedule policy escaping))).source.kind.child?
          name).isSome := by
      intro name
      rw [hfits.child?_eq, Option.isSome_map]
      exact Table.contains_iff.symm
    have hs := (hnames s).2 (by rw [hfits.child? hm]; rfl)
    refine ⟨fun hne hfirst => ?_, fun hfirst hown => ?_⟩
    all_goals
      rcases ha.leads hm hpath hsegments with heq | ⟨hmem, hj⟩ | ⟨hmem, hown', hback⟩ |
        ⟨hmem, hown', -⟩
    · exact absurd heq hne
    · exact hbefore hj
    · exact absurd ((hnames first).2 hfirst) hmem
    · exact absurd ((hnames first).2 hfirst) hmem
    · exact absurd ((hnames first).1 (heq ▸ hs)) (by simp [hfirst])
    · exact absurd ((hnames first).1 hmem) (by simp [hfirst])
    · obtain ⟨second, rest', rfl, hj⟩ := hback
      exact ⟨second, rest', rfl, fun hsecond => hbefore (hj ((hnames second).2 hsecond))⟩
    · exact absurd hown hown'

theorem before_at? {e inner : Entity} {object : List String} {p s : String}
    (hi : e.at? object = some inner) (h : inner.Before [] p s) : e.Before object p s := by
  obtain ⟨schedule, hschedule, hj⟩ := h
  exact ⟨schedule, by rw [hi]; exact hschedule, hj⟩

section

variable {e : Entity} {own : Option String} {entry below rest : List String} {s first : String}
  {path : Path}

/-- What a path of a tree leads to runs before: at the object that decides, or, if the path comes
back into the branch of its reader, in the object that it comes back to. -/
theorem before_of_reads (h : Arranged own e) (hfits : e.Throughout Fits)
    (hplain : e.source.Throughout Chain.Plain) (hreads : e.source.Reads (entry ++ s :: below) path)
    (hsegments : path.segments = first :: rest)
    (hentry : e.source.entry? first (entry ++ s :: below) = some entry) :
    (first ≠ s → e.Before entry first s) ∧
    (first = s → ∀ next below', below = next :: below' → ∃ second rest', rest = second :: rest' ∧
      ((e.source.at? (entry ++ [s, second])).isSome → e.Before (entry ++ [s]) second next)) := by
  have hfirst : path.first? = some first := by rw [Path.first?, hsegments]; rfl
  obtain ⟨last, hlast, hpath⟩ := hreads
  obtain ⟨object, s', below', member, heq, hobject, hdecides, hm, hnone⟩ :=
    Chain.exists_of_entry? hentry (by rw [hlast]; rfl)
  obtain ⟨rfl, rfl⟩ := List.cons.inj (List.append_cancel_left heq)
  rw [Chain.at?_append, hobject, Option.bind_some, Chain.at?_cons, hm, Option.bind_some] at hlast
  -- the entities of the chains on the way
  rw [hfits.source_at?_eq, Option.map_eq_some_iff] at hobject
  obtain ⟨outer, houter, rfl⟩ := hobject
  obtain ⟨own', harranged⟩ := h.at? houter
  have hfits' := hfits.at? houter
  have hplain' := hplain.at? (hfits.source_at? houter)
  rw [(hfits' [] outer rfl).child?_eq, Option.map_eq_some_iff] at hm
  obtain ⟨entity, hentity, rfl⟩ := hm
  have hsource := (hfits' [] outer rfl).child? hentity
  have hmember := harranged.member (hfits' [] outer rfl) (hplain' [] _ rfl) hentity
  refine ⟨fun hne => before_at? houter ?_, ?_⟩
  · have hmem := mem_references_of_reads hmember (hfits'.child hentity) (hplain'.child hsource)
      ⟨last, hlast, hpath⟩ hfirst hnone fun _ hs => hne (Option.some.inj hs).symm
    exact (before_of_references harranged (hfits' [] outer rfl) (hplain' [] _ rfl) hentity hmem
      hsegments).1 hne hdecides
  · rintro rfl next below' rfl
    have hfits'' := hfits'.child hentity
    have hplain'' := hplain'.child hsource
    rw [Chain.at?_cons, Option.bind_eq_some_iff] at hlast
    obtain ⟨chain, hchain, hlast⟩ := hlast
    obtain ⟨hnone, hout⟩ := (Chain.entry?_cons_eq_none hchain).1 hnone
    rw [(hfits'' [] entity rfl).child?_eq, Option.map_eq_some_iff] at hchain
    obtain ⟨entity', hentity', rfl⟩ := hchain
    have hsource' := (hfits'' [] entity rfl).child? hentity'
    have hne : next ≠ first := by
      rintro rfl
      exact absurd (hsource'.symm.trans hout) nofun
    have hmem := mem_references_of_reads
      (hmember.member (hfits'' [] entity rfl) (hplain'' [] _ rfl) hentity') (hfits''.child hentity')
      (hplain''.child hsource') ⟨last, hlast, hpath⟩ hfirst hnone fun _ hs =>
        hne (Option.some.inj hs)
    obtain ⟨second, rest', rfl, hback⟩ := (before_of_references hmember (hfits'' [] entity rfl)
      (hplain'' [] _ rfl) hentity' hmem hsegments).2 hout rfl
    refine ⟨second, rest', rfl, fun hsecond => before_at? ?_ (hback ?_)⟩
    · exact (Entity.at?_append houter _).trans hentity
    · rw [Chain.at?_append, hfits.source_at? houter, Option.bind_some, Chain.at?_cons, hsource,
        Option.bind_some, Chain.at?_singleton] at hsecond
      exact hsecond

/-- No path returns to the branch of its reader, for its member would run before itself. -/
theorem not_returns (h : Arranged own e) (hfits : e.Throughout Fits)
    (hplain : e.source.Throughout Chain.Plain) : ¬ e.source.Returns := by
  rintro ⟨entry, s, next, below, path, rest, hreads, hentry, hsegments⟩
  obtain ⟨second, rest', heq, hback⟩ :=
    (before_of_reads h hfits hplain hreads hsegments hentry).2 rfl next below rfl
  obtain ⟨rfl, rfl⟩ := List.cons.inj heq
  have hat : (e.source.at? ((entry ++ [s, next]) ++ below)).isSome := by
    simpa using hreads.isSome
  exact h.not_before_cycle next (.single (hback (Chain.isSome_at?_of_append hat)))

theorem not_readsAround (h : Arranged own e) (hfits : e.Throughout Fits)
    (hplain : e.source.Throughout Chain.Plain) : ¬ e.source.ReadsAround := by
  rintro ⟨target, s, below, path, hreads, htarget⟩
  obtain ⟨first, rest, entry, hsegments, hentry, rfl, -⟩ := Chain.resolve?_eq_some_iff.1 htarget
  rw [List.append_assoc, List.cons_append] at hreads hentry
  cases rest with
  | nil =>
    obtain ⟨_, _, heq, -⟩ :=
      (before_of_reads h hfits hplain hreads hsegments hentry).2 rfl s below rfl
    cases heq
  | cons next rest =>
    exact not_returns h hfits hplain
      ⟨entry, first, next, rest ++ s :: below, path, rest, hreads, hentry, hsegments⟩

/-- What a member depends on runs before it. -/
theorem before_of_dependsOn {object : List String} {name other : String} (h : Arranged own e)
    (hfits : e.Throughout Fits) (hplain : e.source.Throughout Chain.Plain)
    (hdepends : e.source.DependsOn object name other) : e.Before object other name := by
  obtain ⟨hne, below, path, rest, hreads, htarget⟩ := hdepends
  obtain ⟨first, tail, entry, hsegments, hentry, heq, hat⟩ := Chain.resolve?_eq_some_iff.1 htarget
  obtain ⟨_, s, below', _, hreader, -⟩ := Chain.exists_of_entry? hentry hreads.isSome
  rw [hreader] at hreads hentry
  obtain ⟨hforward, hback⟩ := before_of_reads h hfits hplain hreads hsegments hentry
  rcases List.append_eq_append_iff.1 hreader with ⟨way, rfl, hway⟩ | ⟨way, rfl, hway⟩
  · -- the object decides, or one inside of it that both addresses lead through
    rw [List.append_assoc, List.append_cancel_left_eq] at heq
    cases way with
    | nil =>
      obtain ⟨rfl, rfl⟩ := List.cons.inj hway
      obtain ⟨rfl, rfl⟩ := List.cons.inj heq
      simpa using hforward hne.symm
    | cons t way => exact absurd ((List.cons.inj hway).1.trans (List.cons.inj heq).1.symm) hne
  · rw [List.append_assoc, List.append_cancel_left_eq] at heq
    cases way with
    | nil =>
      obtain ⟨rfl, rfl⟩ := List.cons.inj hway
      obtain ⟨rfl, rfl⟩ := List.cons.inj heq
      simpa using hforward hne.symm
    | cons t way =>
      obtain ⟨rfl, rfl⟩ := List.cons.inj hway
      obtain ⟨rfl, rfl⟩ := List.cons.inj heq
      cases way with
      | nil =>
        obtain ⟨second, rest', heq, hbefore⟩ := hback rfl name below rfl
        obtain ⟨rfl, rfl⟩ := List.cons.inj heq
        have hat : (e.source.at? ((entry ++ [s, other]) ++ rest)).isSome := by simpa using hat
        exact hbefore (Chain.isSome_at?_of_append hat)
      | cons next way =>
        exact absurd ⟨entry, s, next, way ++ name :: below, path, way ++ other :: rest, hreads,
          hentry, hsegments⟩ (not_returns h hfits hplain)

/-- A compiled tree has no fault. -/
theorem not_faulty (h : Arranged own e) (hfits : e.Throughout Fits)
    (hplain : e.source.Throughout Chain.Plain) : ¬ e.source.Faulty := by
  rintro (⟨object, name, hcycle⟩ | hreads | hreturns)
  · have hcycle : TransGen (Function.swap (e.Before object)) name name :=
      TransGen.mono (fun _ _ => before_of_dependsOn h hfits hplain) _ _ hcycle
    exact h.not_before_cycle name (transGen_swap.1 hcycle)
  · exact not_readsAround h hfits hplain hreads
  · exact not_returns h hfits hplain hreturns

end

end Entity

end Intake
