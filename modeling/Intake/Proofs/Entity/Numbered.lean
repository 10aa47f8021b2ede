import Intake.Proofs.Entity.Fits
/-!
# Numbers of entities

Compilation goes through a chain depth first and numbers what it makes: an entity, then the
resolver of its default, then its items or its members as they are declared.  So the numbers of a
compiled tree, read in this order, are those from 0, and there is an entity for every chain of the
tree and for every default that is a path:

    standard.compileCounting c = .ok (e, k) → e.preorder.map (·.id) = List.range k ∧ …

`Spans n n' es cs` says it of one part of a compilation, which goes from the number `n` to `n'` and
makes the entities `es` of the chains `cs`; parts that follow one another join (`Spans.append`).
-/

namespace Intake

/-! ## The order -/

namespace Chain

mutual

/-- The chains of a tree in depth-first order: each before its items or fields, and fields as they
are declared. -/
def nodes : Chain → List Chain
  | mk kind props pipeline registry => mk kind props pipeline registry :: nodesInside kind

def nodesInside : Kind → List Chain
  | .array (some items) => nodes items
  | .object fields => fieldNodes fields
  | _ => []

def fieldNodes : List (String × Chain) → List Chain
  | [] => []
  | (_, field) :: rest => nodes field ++ fieldNodes rest

end

/-- The path of a default, if it has to be looked up. -/
def defaultPath? (c : Chain) : Option Path := c.props.default?.bind (·.path?)

/-- The chains that a chain needs entities for: itself, and after it the path of its default. -/
def planned (c : Chain) : List Chain := c :: c.defaultPath?.toList.map ofPath

theorem length_flatMap_planned (cs : List Chain) :
    (cs.flatMap planned).length = cs.length + cs.countP (·.defaultPath?.isSome) := by
  induction cs with
  | nil => rfl
  | cons c rest ih =>
    rw [List.flatMap_cons, List.length_append, ih, List.countP_cons, planned]
    cases c.defaultPath? with
    | none =>
      simp
      omega
    | some path =>
      simp
      omega

end Chain

namespace Entity

mutual

/-- The entities of a tree in depth-first order: each before the resolver of its default, that
before its items or members, and members in their order. -/
def preorder : Entity → List Entity
  | mk id source resolver body =>
    mk id source resolver body :: (preorderOf resolver ++ preorderInside body)

def preorderOf : Option Entity → List Entity
  | none => []
  | some e => preorder e

def preorderInside : Body → List Entity
  | .behaviour _ hooks => preorderHeld hooks
  | _ => []

def preorderHeld : Hooks → List Entity
  | .array items => preorderOf items
  | .object members _ _ _ => memberPreorder members
  | _ => []

def memberPreorder : List (String × Entity) → List Entity
  | [] => []
  | (_, member) :: rest => preorder member ++ memberPreorder rest

end

/-- What an entity holds comes after it. -/
theorem preorder_eq (e : Entity) :
    e.preorder = e :: (preorderOf e.resolver ++ preorderInside e.body) := by
  obtain ⟨n, source, resolver, body⟩ := e
  rfl

theorem sublist_memberPreorder {members : List (String × Entity)} {m : String × Entity}
    (hm : m ∈ members) : m.2.preorder.Sublist (memberPreorder members) := by
  induction members with
  | nil => cases hm
  | cons first rest ih =>
    rcases List.mem_cons.1 hm with rfl | hm
    · exact List.sublist_append_left _ _
    · exact (ih hm).trans (List.sublist_append_right _ _)

/-- The order of a tree is that of every tree inside of it. -/
theorem sublist_preorder_child {e member : Entity} {s : String} (hm : e.child? s = some member) :
    member.preorder.Sublist e.preorder := by
  have hinside : member.preorder.Sublist (preorderInside e.body) := by
    unfold child? at hm
    split at hm
    · next hbody =>
      rw [hbody]
      exact sublist_memberPreorder (Table.mem_of_get? hm)
    · next hbody =>
      rw [hbody, hm]
      exact List.Sublist.refl _
    · cases hm
  rw [preorder_eq e]
  exact (hinside.trans (List.sublist_append_right _ _)).cons e

theorem sublist_preorder {e inner : Entity} {address : List String}
    (h : e.at? address = some inner) : inner.preorder.Sublist e.preorder := by
  induction address generalizing e with
  | nil =>
    obtain rfl := Option.some.inj h
    exact List.Sublist.refl _
  | cons s rest ih =>
    obtain ⟨member, hm, h⟩ := Option.bind_eq_some_iff.1 h
    exact (ih h).trans (sublist_preorder_child hm)

/-- The resolver of a default is numbered after its entity. -/
def Numbered (e : Entity) : Prop :=
  ∀ resolver, e.resolver = some resolver → e.id < resolver.id

/-- Where numbers grow in depth-first order, a resolver has a greater one than its entity. -/
theorem numbered_of_pairwise {e : Entity} (h : (e.preorder.map (·.id)).Pairwise (· < ·)) :
    e.Throughout Numbered := by
  intro address inner hinner resolver hr
  have hsub := (sublist_preorder hinner).map (·.id)
  have hinner := h.sublist hsub
  rw [preorder_eq, List.map_cons, List.pairwise_cons] at hinner
  refine hinner.1 _ (List.mem_map_of_mem (List.mem_append_left _ ?_))
  rw [hr, preorderOf, preorder_eq]
  exact List.mem_cons_self

end Entity

/-! ## Parts of a compilation -/

namespace Mapper

open Entity

/-- A part of a compilation goes from one number to another, and makes entities of some chains,
which it numbers in their order. -/
structure Spans (n n' : Nat) (es : List Entity) (cs : List Chain) : Prop where
  ids : es.map (·.id) = List.range' n es.length
  issued : n' = n + es.length
  sources : es.map (·.source) = cs

namespace Spans

variable {n k n' : Nat} {es es' : List Entity} {cs cs' : List Chain}

theorem empty (n : Nat) : Spans n n [] [] := ⟨rfl, rfl, rfl⟩

theorem single (e : Entity) : Spans e.id (e.id + 1) [e] [e.source] := ⟨rfl, rfl, rfl⟩

theorem append (h : Spans n k es cs) (h' : Spans k n' es' cs') :
    Spans n n' (es ++ es') (cs ++ cs') := by
  refine ⟨?_, ?_, ?_⟩
  · rw [List.map_append, h.ids, h'.ids, h.issued, List.length_append, List.range'_append_1]
  · rw [h'.issued, h.issued, List.length_append, Nat.add_assoc]
  · rw [List.map_append, h.sources, h'.sources]

end Spans

theorem compileDefault_spans {default? : Option Operand} {n n' : Nat} {resolver : Option Entity}
    (h : compileDefault default? n = .ok (resolver, n')) :
    Spans n n' (preorderOf resolver) ((default?.bind (·.path?)).toList.map Chain.ofPath) := by
  cases default? with
  | none =>
    obtain ⟨rfl, rfl⟩ := CompileM.pure_eq_ok.1 h
    exact .empty n
  | some operand =>
    cases operand with
    | literal v =>
      obtain ⟨rfl, rfl⟩ := CompileM.pure_eq_ok.1 h
      exact .empty n
    | reference path =>
      obtain ⟨e, he, rfl⟩ := CompileM.map_eq_ok.1 h
      obtain ⟨id, k, hid, hp⟩ := CompileM.bind_eq_ok.1 he
      obtain ⟨rfl, rfl⟩ := CompileM.pure_eq_ok.1 hp
      obtain ⟨rfl, rfl⟩ := Prod.ext_iff.1 (Except.ok.inj hid)
      exact .single (.mk n (.ofPath path) none (.reference path (.ofSteps [])))

mutual

theorem compileChain_spans : ∀ (c : Chain) (own : Option String) (n n' : Nat) (e : Entity),
    standard.compileChain c own n = .ok (e, n') →
      Spans n n' e.preorder (c.nodes.flatMap Chain.planned)
  | .mk kind props pipeline registry, own, n, n', e, h => by
    obtain ⟨-, resolver, k, body, hresolver, hbody, rfl⟩ := compileChain_eq_ok.1 h
    have hkind := compileKind_spans kind _ own _ _ _ hbody
    have hinside := (compileDefault_spans hresolver).append hkind
    have hown := Spans.single (.mk n (.mk kind props pipeline registry) resolver body)
    exact hown.append hinside

theorem compileKind_spans : ∀ (kind : Kind) (source : Chain) (own : Option String) (n n' : Nat)
    (body : Body), standard.compileKind kind source own n = .ok (body, n') →
      Spans n n' (preorderInside body) ((Chain.nodesInside kind).flatMap Chain.planned)
  | .reference _, source, own, n, n', body, h
  | .custom _, source, own, n, n', body, h
  | .any, source, own, n, n', body, h
  | .string, source, own, n, n', body, h
  | .number, source, own, n, n', body, h
  | .boolean, source, own, n, n', body, h
  | .array none, source, own, n, n', body, h => by
    obtain ⟨rfl, rfl⟩ := CompileM.pure_eq_ok.1 h
    exact .empty n
  | .date, source, own, n, n', body, h => by
    obtain ⟨⟨-, rfl⟩, rfl⟩ := (compileDate_eq_ok rfl).1 h
    exact .empty n
  | .array (some items), source, own, n, n', body, h => by
    obtain ⟨entity, hitems, rfl⟩ := (compileItems_eq_ok rfl).1 h
    exact compileChain_spans items none n n' entity hitems
  | .object fields, source, own, n, n', body, h => by
    obtain ⟨members, schedule, escaping, hmembers, -, rfl⟩ := (compileObject_eq_ok rfl).1 h
    exact compileMembers_spans fields n n' members hmembers

theorem compileMembers_spans : ∀ (fields : List (String × Chain)) (n n' : Nat)
    (members : List (String × Entity)), standard.compileMembers fields n = .ok (members, n') →
      Spans n n' (memberPreorder members) ((Chain.fieldNodes fields).flatMap Chain.planned)
  | [], n, n', members, h => by
    obtain ⟨rfl, rfl⟩ := CompileM.pure_eq_ok.1 h
    exact .empty n
  | (name, field) :: rest, n, n', members, h => by
    obtain ⟨entity, k, others, hentity, hothers, rfl⟩ := compileMembers_cons_eq_ok.1 h
    have hjoined := (compileChain_spans field (some name) n k entity hentity).append
      (compileMembers_spans rest k n' others hothers)
    rwa [← List.flatMap_append] at hjoined

end

theorem compile_numbered {c : Chain} {e : Entity} (h : standard.compile c = .ok e) :
    e.Throughout Numbered := by
  obtain ⟨n, h⟩ := compile_eq_ok.1 h
  refine numbered_of_pairwise ?_
  rw [(compileChain_spans c none 0 n e h).ids]
  exact List.pairwise_lt_range'

/-! ## The main result -/

/-- The entities of a compiled tree, default resolvers included, carry the numbers from 0, each
once, in depth-first order.  In this order they are made of the chains of the tree, each of them
followed by the path of its default if that is looked up, so the numbers that have been issued are
as many as there are chains and such defaults. -/
theorem numbers_of_compiled {c : Chain} {e : Entity} {k : Nat}
    (h : standard.compileCounting c = .ok (e, k)) :
    e.preorder.map (·.id) = List.range k ∧
      e.preorder.map (·.source) = c.nodes.flatMap Chain.planned ∧
      k = c.nodes.length + c.nodes.countP (·.defaultPath?.isSome) := by
  obtain ⟨hids, hissued, hsources⟩ := compileChain_spans c none 0 k e h
  rw [Nat.zero_add] at hissued
  refine ⟨?_, hsources, ?_⟩
  · rw [hids, ← hissued, List.range_eq_range']
  · rw [hissued, ← List.length_map (f := (·.source)), hsources, Chain.length_flatMap_planned]

/-- An object with two members, of which the second has the value of the first by default. -/
def fallback : Chain :=
  let schema : Schema := { registry := Registry.empty }
  (schema.object.field "a" schema.string).field "b" (schema.number.defaultTo (.reference ⟨["a"]⟩))

theorem numbers_of_compiled_fallback :
    ∃ e, standard.compileCounting fallback = .ok (e, 4) ∧ e.preorder.map (·.id) = [0, 1, 2, 3] ∧
      e.preorder.map (·.source.tag) = [.object, .string, .number, .reference] := by
  have hcompiled : ∃ e, standard.compileCounting fallback = .ok (e, 4) := ⟨_, by cbv⟩
  obtain ⟨e, he⟩ := hcompiled
  obtain ⟨hids, hsources, -⟩ := numbers_of_compiled he
  refine ⟨e, he, hids, ?_⟩
  have htags := congrArg (List.map Chain.tag) hsources
  rwa [List.map_map] at htags

end Mapper

end Intake
