import Intake.Proofs.Schedule.Soundness
/-!
# Histories of a schedule

A schedule keeps its order until a node or an edge is added.  Nobody can tell: whatever a caller has
asked of a schedule, every answer is the one that the schedule gives when it has `forget`ten its
order, and asking for the order or executing changes no later answer (`answers_of_history`).

    Same g g' → (g.answer apply r).1 = (g'.answer apply r).1 ∧
      Same (g.answer apply r).2 (g'.answer apply r).2

`Same` says that two schedules have the same nodes and edges and that both are `Current`: an order
that is kept is the one that the reduction finds in the nodes and edges of the moment.
-/

namespace Intake

namespace Schedule

variable {α γ : Type}

/-- What a caller may ask of a schedule whose operations act on a context. -/
inductive Request (α γ : Type) where
  | create (key : String) (operation : Option α)
  | obtain (key : String) (operation : Option α)
  | link (producer consumer : String)
  | order
  | execute (context : γ)

/-- What a caller is told. -/
inductive Answer (γ : Type) where
  | done
  | refused (e : ScheduleError)
  | keys (keys : List String)
  | context (context : γ)

/-- Whether a request may change nodes or edges. -/
def Request.isChange : Request α γ → Bool
  | .order => false
  | .execute _ => false
  | _ => true

/-- An operation that is refused leaves the schedule as it is. -/
def reply (g : Schedule α) : Except ScheduleError (Answer γ × Schedule α) → Answer γ × Schedule α
  | .ok out => out
  | .error e => (.refused e, g)

/-- The answer to a request, and the schedule after it. -/
def answer (apply : α → γ → γ) (g : Schedule α) : Request α γ → Answer γ × Schedule α
  | .create key operation => g.reply ((g.create key operation).map (.done, ·))
  | .obtain key operation => (.done, g.obtain key operation)
  | .link producer consumer => g.reply ((g.link producer consumer).map (.done, ·))
  | .order => g.reply (g.order.map fun out => (.keys out.1, out.2))
  | .execute context => g.reply ((g.execute apply context).map fun out => (.context out.1, out.2))

/-- The answers to some requests, one after the other. -/
def answers (apply : α → γ → γ) (g : Schedule α) : List (Request α γ) → List (Answer γ)
  | [] => []
  | request :: later =>
    (g.answer apply request).1 :: (g.answer apply request).2.answers apply later

/-- The schedule that a history of requests leads to. -/
def reached (apply : α → γ → γ) (history : List (Request α γ)) : Schedule α :=
  history.foldl (fun g request => (g.answer apply request).2) empty

/-- The node of a key after one more request: there is none, or it has an operation or not. -/
def supply (key : String) (node : Option (Option α)) : Request α γ → Option (Option α)
  | .create k operation => if key = k then node <|> some operation else node
  | .obtain k operation => if key = k then some (operation <|> node.join) else node
  | _ => node

/-- The operation that a history has supplied last for a key.  What is supplied to create a node
that is there already does not count. -/
def supplied (history : List (Request α γ)) (key : String) : Option α :=
  (history.foldl (supply key) none).join

/-- A schedule without the order that it keeps. -/
def forget (g : Schedule α) : Schedule α := { g with cached := none }

/-- An order that is kept is the one that the reduction finds. -/
def Current (g : Schedule α) : Prop := ∀ keys, g.cached = some keys → settle g.waiting = .ok keys

/-- Two schedules with the same nodes and edges, whatever they keep. -/
structure Same (g g' : Schedule α) : Prop where
  nodes : g.nodes = g'.nodes
  edges : g.edges = g'.edges
  current : g.Current
  current' : g'.Current

/-- Two operations end alike: both are refused for one reason, or both give one answer and leave
schedules that are the same. -/
inductive EndAlike : (x y : Except ScheduleError (Answer γ × Schedule α)) → Prop where
  | refused (e : ScheduleError) : EndAlike (.error e) (.error e)
  | answered (a : Answer γ) {s s' : Schedule α} (h : Same s s') :
    EndAlike (.ok (a, s)) (.ok (a, s'))

/-! ## One request -/

section

variable {g g' : Schedule α}

theorem waiting_congr (hnames : Table.names g.nodes = Table.names g'.nodes)
    (hedges : g.edges = g'.edges) : g.waiting = g'.waiting := by
  rw [waiting, waiting, hnames, hedges]

/-- Without an order that is kept there is none that could be wrong. -/
theorem current_of_uncached (h : g.cached = none) : g.Current := by
  intro keys hkeys
  rw [h] at hkeys
  cases hkeys

theorem Current.cache (keys : List String) (h : settle g.waiting = .ok keys) :
    Current { g with cached := some keys } := by
  intro keys' hkeys'
  obtain rfl := Option.some.inj hkeys'
  exact h

/-- Another operation of a node leaves the order as it is. -/
theorem Current.put (h : g.Current) {key : String} (hkey : g.contains key = true) (f : α) :
    Current { g with nodes := Table.put key (some f) g.nodes } := by
  have hnames : Table.names (Table.put key (some f) g.nodes) = Table.names g.nodes :=
    Table.names_put_of_contains g.nodes key (some f) (Table.contains_iff.1 hkey)
  have hwaiting : waiting { g with nodes := Table.put key (some f) g.nodes } = g.waiting :=
    waiting_congr hnames rfl
  exact fun keys hkeys => (congrArg settle hwaiting).trans (h keys hkeys)

/-- An order that is kept is the one that would be computed. -/
theorem Current.order_eq (h : g.Current) :
    g.order = (settle g.waiting).map fun keys => (keys, { g with cached := some keys }) := by
  cases hc : g.cached with
  | none =>
    rw [Schedule.order, hc]
    cases settle g.waiting <;> rfl
  | some keys =>
    have hg : { g with cached := some keys } = g := by rw [← hc]
    rw [h keys hc, Schedule.order, hc]
    exact congrArg (fun g => Except.ok (keys, g)) hg.symm

/-- Applies the operations of some keys to a context. -/
def applied (apply : α → γ → γ) (g : Schedule α) (keys : List String) (context : γ) : γ :=
  (keys.filterMap g.operation?).foldl (fun context f => apply f context) context

theorem Current.execute_eq (h : g.Current) (apply : α → γ → γ) (context : γ) :
    g.execute apply context = (settle g.waiting).map fun keys =>
      (g.applied apply keys context, { g with cached := some keys }) := by
  rw [execute, h.order_eq]
  cases settle g.waiting with
  | error e => rfl
  | ok keys => exact congrArg (fun c => Except.ok (c, _)) List.foldl_filterMap.symm

namespace Same

theorem forget (h : g.Current) : Same g g.forget := ⟨rfl, rfl, h, current_of_uncached rfl⟩

theorem trans {g'' : Schedule α} (h : Same g g') (h' : Same g' g'') : Same g g'' :=
  ⟨h.nodes.trans h'.nodes, h.edges.trans h'.edges, h.current, h'.current'⟩

theorem contains_eq (h : Same g g') (key : String) : g.contains key = g'.contains key := by
  rw [contains, contains, h.nodes]

theorem waiting_eq (h : Same g g') : g.waiting = g'.waiting :=
  waiting_congr (congrArg Table.names h.nodes) h.edges

/-- Operations that end alike answer alike. -/
theorem reply {x y : Except ScheduleError (Answer γ × Schedule α)} (h : Same g g')
    (hxy : EndAlike x y) :
    (g.reply x).1 = (g'.reply y).1 ∧ Same (g.reply x).2 (g'.reply y).2 := by
  cases hxy with
  | refused e => exact ⟨rfl, h⟩
  | answered a hs => exact ⟨rfl, hs⟩

/-- A schedule that has been changed keeps no order. -/
theorem refl_uncached (h : g.cached = none) : Same g g :=
  ⟨rfl, rfl, current_of_uncached h, current_of_uncached h⟩

theorem cache (h : Same g g') {keys : List String} (hkeys : settle g'.waiting = .ok keys) :
    Same { g with cached := some keys } { g' with cached := some keys } :=
  ⟨h.nodes, h.edges, Current.cache keys (h.waiting_eq ▸ hkeys), Current.cache keys hkeys⟩

theorem create (h : Same g g') (key : String) (operation : Option α) :
    EndAlike ((g.create key operation).map fun s => (Answer.done (γ := γ), s))
      ((g'.create key operation).map (.done, ·)) := by
  unfold Schedule.create
  rw [h.contains_eq key]
  split
  · exact .refused _
  · rw [h.nodes, h.edges]
    exact .answered _ (refl_uncached rfl)

theorem obtain (h : Same g g') (key : String) (operation : Option α) :
    Same (g.obtain key operation) (g'.obtain key operation) := by
  unfold Schedule.obtain
  rw [← h.contains_eq key]
  split
  · next hkey =>
    cases operation with
    | none => exact h
    | some f =>
      exact ⟨by rw [h.nodes], h.edges, h.current.put hkey f,
        h.current'.put (h.contains_eq key ▸ hkey) f⟩
  · rw [h.nodes, h.edges]
    exact refl_uncached rfl

theorem link (h : Same g g') (producer consumer : String) :
    EndAlike ((g.link producer consumer).map fun s => (Answer.done (γ := γ), s))
      ((g'.link producer consumer).map (.done, ·)) := by
  unfold Schedule.link
  rw [h.contains_eq producer, h.contains_eq consumer, h.edges, h.nodes]
  split
  · exact .refused _
  · split
    · exact .refused _
    · split
      · exact .answered _ h
      · split
        · exact .refused _
        · exact .answered _ (refl_uncached rfl)

theorem order (h : Same g g') :
    EndAlike (g.order.map fun out => (Answer.keys (γ := γ) out.1, out.2))
      (g'.order.map fun out => (.keys out.1, out.2)) := by
  rw [h.current.order_eq, h.current'.order_eq, h.waiting_eq]
  cases hkeys : settle g'.waiting with
  | error e => exact .refused e
  | ok keys => exact .answered _ (h.cache hkeys)

theorem applied_eq (h : Same g g') (apply : α → γ → γ) (keys : List String) (context : γ) :
    g.applied apply keys context = g'.applied apply keys context := by
  unfold applied operation?
  rw [h.nodes]

theorem execute (h : Same g g') (apply : α → γ → γ) (context : γ) :
    EndAlike ((g.execute apply context).map fun out => (Answer.context out.1, out.2))
      ((g'.execute apply context).map fun out => (.context out.1, out.2)) := by
  rw [h.current.execute_eq, h.current'.execute_eq, h.waiting_eq]
  simp only [h.applied_eq]
  cases hkeys : settle g'.waiting with
  | error e => exact .refused e
  | ok keys => exact .answered _ (h.cache hkeys)

/-- Schedules with the same nodes and edges answer alike, and are the same afterwards. -/
theorem answer (h : Same g g') (apply : α → γ → γ) (request : Request α γ) :
    (g.answer apply request).1 = (g'.answer apply request).1 ∧
      Same (g.answer apply request).2 (g'.answer apply request).2 := by
  cases request with
  | create key operation => exact h.reply (h.create key operation)
  | obtain key operation => exact ⟨rfl, h.obtain key operation⟩
  | link producer consumer => exact h.reply (h.link producer consumer)
  | order => exact h.reply h.order
  | execute context => exact h.reply (h.execute apply context)

/-- What does not change nodes or edges leaves the schedule the same. -/
theorem answer_left (h : g.Current) (apply : α → γ → γ) {request : Request α γ}
    (hrequest : request.isChange = false) : Same (g.answer apply request).2 g := by
  have hsame : ∀ {β : Type} (f : List String → β) (a : β → Answer γ),
      Same (g.reply (((settle g.waiting).map fun keys =>
        (f keys, { g with cached := some keys })).map fun out => (a out.1, out.2))).2 g := by
    intro β f a
    cases hkeys : settle g.waiting with
    | error e => exact ⟨rfl, rfl, h, h⟩
    | ok keys => exact ⟨rfl, rfl, Current.cache keys hkeys, h⟩
  cases request with
  | order =>
    show Same (g.reply (g.order.map _)).2 g
    rw [h.order_eq]
    exact hsame id .keys
  | execute context =>
    show Same (g.reply ((g.execute apply context).map _)).2 g
    rw [h.execute_eq]
    exact hsame (g.applied apply · context) .context
  | _ => cases hrequest

/-! ## Histories -/

theorem answers_eq (h : Same g g') (apply : α → γ → γ) (later : List (Request α γ)) :
    g.answers apply later = g'.answers apply later := by
  induction later generalizing g g' with
  | nil => rfl
  | cons request later ih =>
    obtain ⟨hanswer, hafter⟩ := h.answer apply request
    rw [answers, answers, hanswer, ih hafter]

/-- Two histories with the same changes. -/
theorem along (h : Same g g') (apply : α → γ → γ) (history : List (Request α γ)) :
    Same (history.foldl (fun g request => (g.answer apply request).2) g)
      ((history.filter (·.isChange)).foldl (fun g request => (g.answer apply request).2) g') := by
  induction history generalizing g g' with
  | nil => exact h
  | cons request history ih =>
    cases hchange : request.isChange with
    | true =>
      rw [List.filter_cons_of_pos hchange]
      exact ih (h.answer apply request).2
    | false =>
      rw [List.filter_cons_of_neg (by simp [hchange])]
      exact ih ((answer_left h.current apply hchange).trans h)

end Same

/-! ## What has been supplied -/

/-- A new node is found under its key. -/
theorem get?_register {k : String} (hk : k ∉ Table.names g.nodes) (f : Option α) (key : String) :
    Table.get? (g.nodes ++ [(k, f)]) key = if key = k then some f else Table.get? g.nodes key := by
  rw [Table.get?_append, Table.get?_cons, Table.get?_nil]
  split
  · next he => rw [he, Table.get?_eq_none_iff.2 hk, Option.none_or]
  · exact Option.or_none

theorem get?_answer (h : g.Current) (apply : α → γ → γ) (request : Request α γ) (key : String) :
    Table.get? (g.answer apply request).2.nodes key =
      supply key (Table.get? g.nodes key) request := by
  cases request with
  | create k f =>
    show Table.get? (g.reply ((g.create k f).map _)).2.nodes key =
      if key = k then Table.get? g.nodes key <|> some f else Table.get? g.nodes key
    rcases create_eq g k f with ⟨hk, he⟩ | ⟨hk, he⟩ <;> rw [he]
    · obtain ⟨node, hnode⟩ := Table.exists_get? hk
      show Table.get? g.nodes key = _
      split
      · next he => rw [he, hnode]; rfl
      · rfl
    · refine (get?_register hk f key).trans ?_
      split
      · next he => rw [he, Table.get?_eq_none_iff.2 hk]; rfl
      · rfl
  | obtain k f =>
    show Table.get? (g.obtain k f).nodes key =
      if key = k then some (f <|> (Table.get? g.nodes key).join) else Table.get? g.nodes key
    rcases obtain_eq g k f with ⟨hk, rfl, he⟩ | ⟨-, f, rfl, he⟩ | ⟨hk, he⟩ <;> rw [he]
    · obtain ⟨node, hnode⟩ := Table.exists_get? hk
      split
      · next he => rw [he, hnode]; rfl
      · rfl
    · exact Table.get?_put _ _ _ _
    · refine (get?_register hk f key).trans ?_
      split
      · next he => rw [he, Table.get?_eq_none_iff.2 hk]; cases f <;> rfl
      · rfl
  | link p c =>
    show Table.get? (g.reply ((g.link p c).map _)).2.nodes key = Table.get? g.nodes key
    rcases link_eq g p c with ⟨-, he⟩ | ⟨-, -, he⟩ | ⟨-, -, -, he⟩ | ⟨-, -, -, -, he⟩ |
        ⟨-, -, -, -, he⟩ <;> rw [he] <;> rfl
  | order => exact congrArg (Table.get? · key) (Same.answer_left h apply rfl).nodes
  | execute context => exact congrArg (Table.get? · key) (Same.answer_left h apply rfl).nodes

/-- What a reply leaves behind: the schedule after the operation. -/
theorem snd_reply {β : Type} (g : Schedule α) (x : Except ScheduleError β) (a : β → Answer γ)
    (s : β → Schedule α) : (g.reply (x.map fun out => (a out, s out))).2 = g.after (x.map s) := by
  cases x <;> rfl

theorem snd_reply_done (g : Schedule α) (x : Except ScheduleError (Schedule α)) (a : Answer γ) :
    (g.reply (x.map (a, ·))).2 = g.after x := by
  cases x <;> rfl

/-- A request is an operation of the schedule. -/
theorem step_answer (apply : α → γ → γ) (g : Schedule α) (request : Request α γ) :
    Step g (g.answer apply request).2 := by
  cases request with
  | create key operation =>
    rw [answer, snd_reply_done]
    exact Step.create g key operation
  | obtain key operation => exact Step.obtain g key operation
  | link producer consumer =>
    rw [answer, snd_reply_done]
    exact Step.link g producer consumer
  | order =>
    rw [answer, snd_reply]
    exact Step.order g
  | execute context =>
    rw [answer, snd_reply]
    exact Step.execute g apply context

end

section

variable (apply : α → γ → γ) (history : List (Request α γ))

/-- A history keeps what holds of the empty schedule and what every request keeps. -/
theorem reached_induction {P : List (Request α γ) → Schedule α → Prop} (hempty : P [] empty)
    (hanswer : ∀ history g request, P history g →
      P (history ++ [request]) (g.answer apply request).2) :
    P history (reached apply history) := by
  have hfrom : ∀ (later past : List (Request α γ)) (g : Schedule α), P past g →
      P (past ++ later) (later.foldl (fun g request => (g.answer apply request).2) g) := by
    intro later
    induction later with
    | nil => exact fun past g h => (List.append_nil past).symm ▸ h
    | cons request later ih =>
      intro past g h
      have := ih (past ++ [request]) _ (hanswer past g request h)
      rwa [List.append_assoc] at this
  exact hfrom history [] empty hempty

theorem reachable_reached : Reachable (reached apply history) :=
  reached_induction (P := fun _ g => Reachable g) apply history Relation.ReflTransGen.refl
    fun _ g request h => Relation.ReflTransGen.tail h (step_answer apply g request)

theorem current_reached : (reached apply history).Current :=
  reached_induction (P := fun _ g => g.Current) apply history (current_of_uncached rfl)
    fun _ _ request h => ((Same.forget h).answer apply request).2.current

theorem operation?_reached (key : String) :
    (reached apply history).operation? key = supplied history key := by
  have h : (reached apply history).Current ∧
      Table.get? (reached apply history).nodes key = history.foldl (supply key) none := by
    refine reached_induction (P := fun history g =>
      g.Current ∧ Table.get? g.nodes key = history.foldl (supply key) none) apply history
      ⟨current_of_uncached rfl, rfl⟩ ?_
    rintro history g request ⟨hcurrent, hnode⟩
    refine ⟨((Same.forget hcurrent).answer apply request).2.current, ?_⟩
    rw [get?_answer hcurrent, hnode, List.foldl_append]
    rfl
  rw [operation?, supplied, h.2]

/-- Whatever has been asked of a schedule: every answer is the one that it gives when it has
forgotten its order, and the answers to later requests depend on the changes alone, not on where
the order was asked for or the operations executed.  The order is the one that the reduction finds
in the nodes and edges of the moment, has every key once, and executing applies to the context, in
that order, the operation supplied last for each key that has one. -/
theorem answers_of_history :
    (∀ request, ((reached apply history).answer apply request).1 =
      ((reached apply history).forget.answer apply request).1) ∧
    (∀ history', history.filter (·.isChange) = history'.filter (·.isChange) → ∀ later,
      (reached apply history).answers apply later =
        (reached apply history').answers apply later) ∧
    ∃ keys, settle (reached apply history).waiting = .ok keys ∧ keys.Nodup ∧
      (∀ key, key ∈ keys ↔ (reached apply history).contains key = true) ∧
      ((reached apply history).answer apply .order).1 = .keys keys ∧
      ∀ context, ((reached apply history).answer apply (.execute context)).1 = .context
        ((keys.filterMap (supplied history)).foldl (fun context f => apply f context) context) := by
  have hcurrent := current_reached apply history
  have hsound := (reachable_reached apply history).sound
  refine ⟨fun request => ((Same.forget hcurrent).answer apply request).1, ?_, ?_⟩
  · intro history' hchanges later
    have hempty : Same (empty : Schedule α) empty := Same.refl_uncached rfl
    have hsame := hempty.along apply history
    have hsame' := hempty.along apply history'
    exact (hsame.answers_eq apply later).trans
      (hchanges ▸ (hsame'.answers_eq apply later).symm)
  · obtain ⟨keys, hkeys, hperm, -⟩ := hsound.outstanding.settle_eq hsound.acyclic
    have hnames : Table.names (reached apply history).waiting =
        Table.names (reached apply history).nodes := by
      simp [waiting, Table.names]
    rw [hnames] at hperm
    refine ⟨keys, hkeys, hperm.nodup_iff.2 hsound.nodup, ?_, ?_, fun context => ?_⟩
    · exact fun key => hperm.mem_iff.trans Table.contains_iff.symm
    · show (reply _ ((reached apply history).order.map _)).1 = _
      rw [hcurrent.order_eq, hkeys]
      rfl
    · show (reply _ (((reached apply history).execute apply context).map _)).1 = _
      rw [hcurrent.execute_eq, hkeys]
      have hoperation : (reached apply history).operation? = supplied history :=
        funext (operation?_reached apply history)
      exact congrArg (fun f => Answer.context ((keys.filterMap f).foldl _ context)) hoperation

end

end Schedule

end Intake
