import Intake.Proofs.Entity.Refusals
import Intake.Proofs.Run.Presence
/-!
# Entities inside of a compiled tree

Every entity inside of a compiled one is what its own chain compiles to, as a member of that name
and with the numbers that have been left (`Entity.Inner`).  So whatever makes a chain fail by itself
is nowhere in a compiled tree; an output format of a date that is no pattern is such a thing.
-/

namespace Intake

namespace Entity

/-- An entity that its own chain compiles to. -/
def Inner (e : Entity) : Prop :=
  ∃ own n n', Mapper.standard.compileChain e.source own n = .ok (e, n')

end Entity

theorem Chain.checkOutputFormat_eq {c : Chain} {pattern : String}
    (h : c.props.outputFormat = some pattern) :
    c.checkOutputFormat = if Date.isPattern pattern then .ok ()
      else .error (.invalidOption c.displayName "output_format"
        s!"'{pattern}' is not a valid strftime format") := by
  rw [checkOutputFormat, h]

namespace Mapper

open Entity

mutual

theorem compileChain_inner : ∀ (c : Chain) (own : Option String) (n n' : Nat) (e : Entity),
    standard.compileChain c own n = .ok (e, n') → e.Throughout Inner
  | .mk kind props pipeline registry, own, n, n', e, h => by
    have hinner : e.Inner := ⟨own, n, n', (compileChain_fits _ own n n' e h).1.symm ▸ h⟩
    obtain ⟨-, resolver, k, body, -, hbody, rfl⟩ := compileChain_eq_ok.1 h
    exact .of_children hinner (compileKind_inner kind _ own k n' body hbody n resolver)

theorem compileKind_inner : ∀ (kind : Kind) (source : Chain) (own : Option String) (n n' : Nat)
    (body : Body), standard.compileKind kind source own n = .ok (body, n') →
    ∀ id resolver s member, Entity.child? (.mk id source resolver body) s = some member →
      member.Throughout Inner
  | .reference _, _, _, _, _, _, h
  | .custom _, _, _, _, _, _, h
  | .any, _, _, _, _, _, h
  | .string, _, _, _, _, _, h
  | .number, _, _, _, _, _, h
  | .boolean, _, _, _, _, _, h
  | .array none, _, _, _, _, _, h => by
    obtain ⟨rfl, -⟩ := CompileM.pure_eq_ok.1 h
    exact fun _ _ _ _ hm => nomatch hm
  | .date, source, own, n, n', body, h => by
    obtain ⟨-, rfl⟩ := (compileDate_eq_ok rfl).1 h
    exact fun _ _ _ _ hm => nomatch hm
  | .array (some items), source, own, n, n', body, h => by
    obtain ⟨entity, hitems, rfl⟩ := (compileItems_eq_ok rfl).1 h
    exact fun _ _ _ _ hm => Option.some.inj hm ▸ compileChain_inner items none n n' entity hitems
  | .object fields, source, own, n, n', body, h => by
    obtain ⟨members, schedule, escaping, hmembers, -, rfl⟩ := (compileObject_eq_ok rfl).1 h
    exact fun _ _ _ _ hm =>
      compileMembers_inner fields n n' members hmembers _ (Table.mem_of_get? hm)

theorem compileMembers_inner : ∀ (fields : List (String × Chain)) (n n' : Nat)
    (members : List (String × Entity)), standard.compileMembers fields n = .ok (members, n') →
    ∀ m ∈ members, m.2.Throughout Inner
  | [], n, n', members, h => by
    obtain ⟨rfl, -⟩ := CompileM.pure_eq_ok.1 h
    exact List.forall_mem_nil _
  | (name, field) :: rest, n, n', members, h => by
    obtain ⟨entity, k, others, hentity, hothers, rfl⟩ := compileMembers_cons_eq_ok.1 h
    exact List.forall_mem_cons.2 ⟨compileChain_inner field (some name) n k entity hentity,
      compileMembers_inner rest k n' others hothers⟩

end

theorem compile_inner {c : Chain} {e : Entity} (h : standard.compile c = .ok e) :
    e.Throughout Inner := by
  obtain ⟨n, h⟩ := compile_eq_ok.1 h
  exact compileChain_inner c none 0 n e h

/-! ## Output formats -/

theorem ends_self {ε α : Type} (r : Except ε α) :
    Ends (fun a => r = .ok a) (fun e => r = .error e) r := by
  cases r <;> rfl

/-- Only contradictory presence rules and its output format can make a date fail to compile. -/
theorem compileChain_date {c : Chain} (hkind : c.kind = .date) (own : Option String) (n : Nat) :
    Ends (fun _ => c.checkOutputFormat = .ok ())
      (fun e => c.checkPresence = .error e ∨ c.checkOutputFormat = .error e)
      (standard.compileChain c own n) := by
  obtain ⟨kind, props, pipeline, registry⟩ := c
  obtain rfl : kind = .date := hkind
  generalize hc : Chain.mk .date props pipeline registry = c
  have hdate : standard.handles .date = true := rfl
  have hpresence := (ends_self c.checkPresence).imp (fun _ h => h)
    fun e h => (Or.inl h : _ ∨ c.checkOutputFormat = .error e)
  have hformat := (ends_self c.checkOutputFormat).imp
    (fun _ h => (h : c.checkOutputFormat = .ok ()))
    fun e h => (Or.inr h : c.checkPresence = .error e ∨ _)
  have hbody : ∀ k, Ends (fun _ => c.checkOutputFormat = .ok ())
      (fun e => c.checkPresence = .error e ∨ c.checkOutputFormat = .error e)
      (standard.compileKind .date c own k) := by
    intro k
    simp only [compileKind, hdate, if_pos]
    exact CompileM.ends_bind (CompileM.ends_ofExcept hformat) fun _ _ h => h
  rw [← hc, compileChain, hc]
  refine CompileM.ends_bind (CompileM.ends_ofExcept hpresence) fun _ _ _ => ?_
  refine CompileM.ends_bind (P := fun _ => True) trivial fun id _ _ => ?_
  refine CompileM.ends_bind (compileDefault_ends _ _ _) fun resolver k _ => ?_
  exact CompileM.ends_bind (hbody k) fun _ _ h => h

theorem compile_date {c : Chain} (hkind : c.kind = .date)
    (hpresence : Chain.presenceConflict? c.props = none) :
    Ends (fun _ => c.checkOutputFormat = .ok ()) (fun e => c.checkOutputFormat = .error e)
      (standard.compile c) := by
  have hchecked : c.checkPresence = .ok () := by
    rw [Chain.checkPresence, hpresence]
  have hends := compileChain_date hkind none 0
  unfold compile compileCounting
  change Ends _ _ ((standard.compileChain c none 0).map (·.1))
  cases hrun : standard.compileChain c none 0 with
  | ok out =>
    rw [hrun] at hends
    exact hends
  | error e =>
    rw [hrun, hchecked] at hends
    exact hends.resolve_left nofun

end Mapper

namespace Entity

variable {c : Chain} {root owner e : Entity}

/-- What looks up a default is a reference. -/
theorem Compiled.resolver_eq (h : owner.Compiled) (he : owner.resolver = some e) :
    ∃ n path, e = resolving n path := by
  have hresolves := h.resolves
  rw [he] at hresolves
  unfold Resolves at hresolves
  split at hresolves
  · obtain ⟨n, hn⟩ := hresolves
    exact ⟨n, _, Option.some.inj hn⟩
  · cases hresolves

/-- An entity that is no reference has an address. -/
theorem Within.address (h : e.Within root) (hc : Mapper.standard.compile c = .ok root)
    (hkind : ∀ path, e.source.kind ≠ .reference path) : ∃ segments, root.at? segments = some e := by
  obtain ⟨segments, owner, howner, rfl | he⟩ := h
  · exact ⟨segments, howner⟩
  · have hwithin : owner.Within root := ⟨segments, owner, howner, .inl rfl⟩
    obtain ⟨n, path, rfl⟩ := (hwithin.compiled hc).resolver_eq he
    exact absurd rfl (hkind path)

/-- The output format of a date in a compiled tree is a pattern. -/
theorem Within.isPattern {pattern : String} (h : e.Within root)
    (hc : Mapper.standard.compile c = .ok root) (hkind : e.source.kind = .date)
    (hformat : e.source.props.outputFormat = some pattern) : Date.isPattern pattern = true := by
  obtain ⟨segments, he⟩ := h.address hc (by rw [hkind]; exact nofun)
  obtain ⟨own, n, n', hcompiled⟩ := Mapper.compile_inner hc segments e he
  have hends := Mapper.compileChain_date hkind own n
  rw [hcompiled] at hends
  have hchecked : e.source.checkOutputFormat = .ok () := hends
  rw [Chain.checkOutputFormat_eq hformat] at hchecked
  by_contra hpattern
  rw [if_neg hpattern] at hchecked
  cases hchecked

end Entity

end Intake
