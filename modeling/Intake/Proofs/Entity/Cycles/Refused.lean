import Intake.Proofs.Entity.Cycles.Compiled
import Intake.Proofs.Schedule.Failure
/-!
# Trees that are refused

If scheduling the members of an object fails, the paths that its members leave show why: they
depend on one another in a circle, a path leads to the object around its reader, or it returns to
the branch of its reader (`faulty_of_stuck`).  Nothing else fails in a tree of objects, scalars and
references:

    Ends … (Closes root) (standard.compileChain root none 0)
-/

namespace Intake

open Relation

namespace Chain

/-! ## Members that are stuck -/

/-- The members of an object, each with paths that it leaves. -/
structure MembersLeave (c : Chain) (members : List (String × List Path)) : Prop where
  names : ∀ s, s ∈ members.map (·.1) ↔ (c.kind.child? s).isSome
  leaves : ∀ m ∈ members, ∀ path ∈ m.2, ∃ member, c.kind.child? m.1 = some member ∧
    member.Leaves path

theorem MembersLeave.child?_eq_none {c : Chain} {members : List (String × List Path)}
    (h : c.MembersLeave members) {s : String} (hs : s ∉ members.map (·.1)) :
    c.kind.child? s = none :=
  Option.not_isSome_iff_eq_none.1 (mt (h.names s).2 hs)

section

variable {root c : Chain} {address : List String} {members : List (String × List Path)}
  {name : String} {path : Path}

/-- Where a path leads that a member leaves: its first segment is another member, or the own name
of the object, or the object does not decide. -/
theorem leaves_entry (hresolved : root.Resolved) (hc : root.at? address = some c)
    {member : Chain} (hm : c.kind.child? name = some member) (h : member.Leaves path) :
    ∃ below first rest entry, root.Reads (address ++ name :: below) path ∧
      path.segments = first :: rest ∧
      root.entry? first (address ++ name :: below) = some entry ∧
      root.resolve? (address ++ name :: below) path = some (entry ++ first :: rest) ∧
      ((c.kind.child? first).isSome → entry = address) ∧
      (c.kind.child? first = none → address.getLast? = some first →
        address = entry ++ [first]) := by
  obtain ⟨below, hreads, hentry⟩ := h
  have hreads : root.Reads (address ++ name :: below) path := (hreads.cons hm).append hc
  obtain ⟨target, htarget⟩ := Option.isSome_iff_exists.1 (hresolved _ _ hreads)
  obtain ⟨first, rest, entry, hsegments, hentry', rfl, -⟩ := resolve?_eq_some_iff.1 htarget
  refine ⟨below, first, rest, entry, hreads, hsegments, hentry', htarget, fun hfirst => ?_,
    fun hfirst hlast => ?_⟩
  all_goals
    rw [entry?_append hc, entry?_cons hm (hentry first (by rw [Path.first?, hsegments]; rfl))]
      at hentry'
  · rw [if_pos hfirst, Option.elim_some, List.append_nil] at hentry'
    exact (Option.some.inj hentry').symm
  · obtain ⟨outer, rfl⟩ := List.getLast?_eq_some_iff.1 hlast
    rw [hfirst, if_neg (by simp), Option.elim_none, entry?_own (by rw [hc]; rfl)] at hentry'
    rw [Option.some.inj hentry']

/-- What escapes from an object, it leaves. -/
theorem leaves_of_escapes {own : Option String} {state : Schedule String × List Path}
    (hmembers : c.MembersLeave members) (h : Schedule.Owed own members state)
    (hpath : path ∈ state.2) : c.Leaves path := by
  obtain ⟨m, hmem, hpath, hcourse⟩ := h.escaping hpath
  obtain ⟨member, hm, reader, hreads, hentry⟩ := hmembers.leaves m hmem path hpath
  refine ⟨m.1 :: reader, hreads.cons hm, fun first hfirst => ?_⟩
  obtain ⟨rest, hsegments⟩ := Path.segments_of_first? hfirst
  rcases Schedule.course_cases own (members.map (·.1)) m.1 hsegments with
    ⟨-, hc'⟩ | ⟨-, -, hc'⟩ | ⟨-, -, -, hc'⟩ | ⟨-, -, _, _, -, ⟨-, hc'⟩ | ⟨-, hc'⟩⟩ |
    ⟨-, hout, -, hc'⟩ <;>
    cases hc'.symm.trans hcourse
  exact (entry?_cons_eq_none hm).2 ⟨hentry first hfirst, hmembers.child?_eq_none hout⟩

/-- If the members of an object are stuck, there is a fault. -/
theorem faulty_of_stuck (hresolved : root.Resolved) (hc : root.at? address = some c)
    (hmembers : c.MembersLeave members) (h : Schedule.Stuck address.getLast? members) :
    root.Faulty := by
  -- whoever a member asks for, it depends on, or a path returns
  have hasks : ¬ root.Returns → ∀ p s, Schedule.Asks address.getLast? members p s →
      root.DependsOn address s p := by
    rintro hreturns p s ⟨m, hmem, rfl, path, hpath, hcourse⟩
    obtain ⟨member, hm, hleaves⟩ := hmembers.leaves m hmem path hpath
    obtain ⟨below, first, rest, entry, hreads, hsegments, hentry, htarget, hown, hout⟩ :=
      leaves_entry hresolved hc hm hleaves
    rcases Schedule.course_cases address.getLast? (members.map (·.1)) m.1 hsegments with
      ⟨-, hc'⟩ | ⟨hne, hfirst, hc'⟩ | ⟨-, -, -, hc'⟩ |
      ⟨hfirst, hlast, second, rest', rfl, ⟨-, hc'⟩ | ⟨-, hc'⟩⟩ | ⟨-, -, -, hc'⟩ <;>
      cases hc'.symm.trans hcourse
    · obtain rfl := hown ((hmembers.names p).1 hfirst)
      exact ⟨hne.symm, below, path, rest, hreads, htarget⟩
    · obtain rfl := hout (hmembers.child?_eq_none hfirst) hlast
      by_cases hne : m.1 = p
      · subst hne
        refine absurd ⟨entry, first, m.1, below, path, rest', ?_, ?_, hsegments⟩ hreturns
        · simpa using hreads
        · simpa using hentry
      · exact ⟨hne, below, path, rest', hreads, by simpa using htarget⟩
  rcases h with ⟨m, hmem, path, hpath, f, hcourse⟩ | ⟨name, hcycle⟩
  · obtain ⟨member, hm, hleaves⟩ := hmembers.leaves m hmem path hpath
    obtain ⟨below, first, rest, entry, hreads, hsegments, -, htarget, -, hout⟩ :=
      leaves_entry hresolved hc hm hleaves
    rcases Schedule.course_cases address.getLast? (members.map (·.1)) m.1 hsegments with
      ⟨-, hc'⟩ | ⟨-, -, hc'⟩ | ⟨hfirst, hlast, rfl, hc'⟩ |
      ⟨-, -, _, _, -, ⟨-, hc'⟩ | ⟨-, hc'⟩⟩ | ⟨-, -, -, hc'⟩ <;>
      cases hc'.symm.trans hcourse
    rw [← hout (hmembers.child?_eq_none hfirst) hlast] at htarget
    exact .inr (.inl ⟨address, m.1, below, path, hreads, htarget⟩)
  · by_cases hreturns : root.Returns
    · exact .inr (.inr hreturns)
    · have hcycle : TransGen (Function.swap (root.DependsOn address)) name name :=
        TransGen.mono (hasks hreturns) _ _ hcycle
      exact .inl ⟨address, name, transGen_swap.1 hcycle⟩

end

end Chain

/-! ## Compilations that fail -/

namespace Mapper

open Chain Entity

/-- The error of a tree with a cycle. -/
def Closes (root : Chain) (e : BuildError) : Prop :=
  (∃ p c, e = .schedule (.cycle p c)) ∧ root.Faulty

theorem compileDefault_ends (due : BuildError → Prop) (default? : Option Operand) (n : Nat) :
    Ends (fun _ => True) due (compileDefault default? n) := by
  cases default? with
  | none => trivial
  | some operand => cases operand <;> trivial

theorem ends_lift {α : Type} {good : α → Prop} {due : ScheduleError → Prop}
    {due' : BuildError → Prop} {r : Except ScheduleError α} (n : Nat) (h : Ends good due r)
    (hdue : ∀ e, due e → due' (.schedule e)) :
    Ends (fun out => good out.1) due' (CompileM.ofExcept (Schedule.lift r) n) := by
  cases r with
  | ok a => exact h
  | error e => exact hdue e h

/-- What the compiled members of an object look up, their chains leave. -/
theorem membersLeave_of_compiled {source : Chain} {fields : List (String × Chain)}
    {members : List (String × Entity)} (hnodup : (fields.map (·.1)).Nodup)
    (hk : source.kind = .object fields)
    (h : members.map (·.1) = fields.map (·.1) ∧ ∀ m ∈ members, ∃ field,
      (m.1, field) ∈ fields ∧ ∀ path ∈ m.2.references, field.Leaves path) :
    source.MembersLeave (members.map fun m => (m.1, m.2.references)) := by
  refine ⟨fun s => ?_, fun m hm path hpath => ?_⟩
  · rw [Table.names_map, h.1, hk]
    exact Table.contains_iff.symm
  · obtain ⟨member, hmember, rfl⟩ := List.mem_map.1 hm
    obtain ⟨field, hf, hleaves⟩ := h.2 member hmember
    exact ⟨field, hk ▸ Table.get?_of_mem hnodup hf, hleaves path hpath⟩

section

variable {root : Chain}

mutual

/-- A chain of a tree compiles, and leaves no other paths than those inside of it do, or the tree
has a fault. -/
theorem compileChain_ends (hplain : root.Throughout Plain) (hresolved : root.Resolved) :
    ∀ (c : Chain) (address : List String) (n : Nat), root.at? address = some c →
      Ends (fun out => ∀ path ∈ out.1.references, c.Leaves path) (Closes root)
        (standard.compileChain c address.getLast? n)
  | .mk kind props pipeline registry, address, n, hc => by
    obtain ⟨-, hcustom, -, hpresence, -⟩ := hplain address _ hc
    unfold compileChain
    dsimp only
    rw [hpresence]
    refine CompileM.ends_bind (P := fun _ => True) trivial fun _ _ _ => ?_
    refine CompileM.ends_bind (P := fun _ => True) trivial fun id _ _ => ?_
    refine CompileM.ends_bind (compileDefault_ends _ _ _) fun resolver k _ => ?_
    refine CompileM.ends_bind
      (compileKind_ends hplain hresolved kind _ address k hc rfl).and_eq fun body k' hbody => ?_
    obtain ⟨hescaping, hbody⟩ := hbody
    intro path hpath
    have hfits := (compileKind_suits kind _ _ _ _ _ rfl hbody).1
    have hcustom' : ∀ name, kind ≠ .custom name := by
      rintro name rfl
      exact hcustom name rfl
    rcases (mem_references_iff hfits hcustom').1 hpath with hpath | hpath
    · exact ⟨[], ⟨_, rfl, hpath⟩, fun _ _ => rfl⟩
    · exact hescaping path hpath

theorem compileKind_ends (hplain : root.Throughout Plain) (hresolved : root.Resolved) :
    ∀ (kind : Kind) (source : Chain) (address : List String) (n : Nat),
      root.at? address = some source → source.kind = kind →
      Ends (fun out => ∀ path ∈ escapingOf out.1, source.Leaves path) (Closes root)
        (standard.compileKind kind source address.getLast? n)
  | .reference _, _, _, _, _, _
  | .any, _, _, _, _, _
  | .string, _, _, _, _, _
  | .number, _, _, _, _, _
  | .boolean, _, _, _, _, _ => fun _ h => absurd h List.not_mem_nil
  | .custom name, _, _, _, hc, hk => absurd (congrArg Kind.tag hk) ((hplain _ _ hc).custom name)
  | .array _, _, _, _, hc, hk => absurd (congrArg Kind.tag hk) (hplain _ _ hc).array
  | .date, source, address, n, hc, hk => by
    have hdate : standard.handles .date = true := rfl
    simp only [compileKind, hdate, if_pos, (hplain _ _ hc).outputFormat hk]
    exact fun _ h => absurd h List.not_mem_nil
  | .object fields, source, address, n, hc, hk => by
    have hobject : standard.handles .object = true := rfl
    have hnodup := (hplain _ _ hc).names fields hk
    unfold compileKind
    rw [if_pos hobject]
    refine CompileM.ends_bind (compileMembers_ends hplain hresolved fields address n
      fun f hf => ?_) fun members k hmembers => ?_
    · rw [Chain.at?_append, hc, Option.bind_some, Chain.at?_singleton, hk]
      exact Table.get?_of_mem hnodup hf
    dsimp only
    have hleave := membersLeave_of_compiled hnodup hk hmembers
    have hnodup' : ((members.map fun m => (m.1, m.2.references)).map (·.1)).Nodup := by
      rw [Table.names_map, hmembers.1]
      exact hnodup
    refine CompileM.ends_bind (ends_lift _ (Schedule.ofMembers_ends hnodup')
      fun e he => ⟨?_, faulty_of_stuck hresolved hc hleave he.2⟩) fun out k' hout => ?_
    · obtain ⟨p, c, rfl⟩ := he.1
      exact ⟨p, c, rfl⟩
    · intro path hpath
      exact leaves_of_escapes hleave hout hpath

theorem compileMembers_ends (hplain : root.Throughout Plain) (hresolved : root.Resolved) :
    ∀ (fields : List (String × Chain)) (address : List String) (n : Nat),
      (∀ f ∈ fields, root.at? (address ++ [f.1]) = some f.2) →
      Ends (fun out => out.1.map (·.1) = fields.map (·.1) ∧ ∀ m ∈ out.1, ∃ field,
          (m.1, field) ∈ fields ∧ ∀ path ∈ m.2.references, field.Leaves path) (Closes root)
        (standard.compileMembers fields n)
  | [], _, _, _ => ⟨rfl, List.forall_mem_nil _⟩
  | (name, field) :: rest, address, n, hfields => by
    unfold compileMembers
    have hfield := compileChain_ends hplain hresolved field (address ++ [name]) n
      (hfields _ List.mem_cons_self)
    rw [List.getLast?_concat] at hfield
    refine CompileM.ends_bind hfield fun entity k hentity => ?_
    refine CompileM.ends_bind (compileMembers_ends hplain hresolved rest address k
      fun f hf => hfields f (List.mem_cons_of_mem _ hf)) fun others k' hothers => ?_
    obtain ⟨hnames, hothers⟩ := hothers
    refine ⟨congrArg (name :: ·) hnames, List.forall_mem_cons.2 ⟨?_, fun m hm => ?_⟩⟩
    · exact ⟨field, List.mem_cons_self, hentity⟩
    · obtain ⟨f, hf, hleaves⟩ := hothers m hm
      exact ⟨f, List.mem_cons_of_mem _ hf, hleaves⟩

end

end

end Mapper

end Intake
