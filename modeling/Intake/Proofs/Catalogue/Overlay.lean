import Intake.Proofs.Fallible
import Intake.Proofs.Table
import Intake.TextFormat
/-!
# Overlays

A table that is extended by others is the table of all their entries, one after the other
(`extend_layers`), so it does not matter which of them have been put together before
(`extend_ofList`):

    layers.foldl extend base = ofList (base :: layers).flatten
    extend t (ofList entries) = extend t entries

For every name it has the entry of the last table with one, in the place that the name has in the
first (`Shows`).  The messages and the descriptions of a catalogue are two tables, and an overlay
extends both of them.
-/

namespace Intake

/-! ## Tables that extend one another -/

namespace Table

variable {α : Type} {name other : String} {entry entry' : α} {t s : Table α}

theorem put_put (name : String) (entry entry' : α) (t : Table α) :
    put name entry (put name entry' t) = put name entry t := by
  induction t with
  | nil => simp [put]
  | cons head rest ih =>
    obtain ⟨n, e⟩ := head
    by_cases h : n = name
    · simp [put, h]
    · simp [put, h, ih]

/-- A name that is there can be put sooner or later. -/
theorem put_comm (hne : name ≠ other) (hname : name ∈ names t) :
    put name entry (put other entry' t) = put other entry' (put name entry t) := by
  induction t with
  | nil => cases hname
  | cons head rest ih =>
    obtain ⟨n, e⟩ := head
    by_cases hn : n = name
    · simp [put, hn, hne]
    · have hrest : name ∈ names rest := (List.mem_cons.1 hname).resolve_left (Ne.symm hn)
      by_cases ho : n = other
      · simp [put, ho, Ne.symm hne]
      · simp [put, hn, ho, ih hrest]

theorem put_extend (hname : name ∈ names t) (hs : name ∉ names s) :
    put name entry (extend t s) = extend (put name entry t) s := by
  induction s generalizing t with
  | nil => rfl
  | cons head rest ih =>
    obtain ⟨hne, hrest⟩ := not_or.1 (mt List.mem_cons.2 hs)
    have hput : name ∈ names (put head.1 head.2 t) := by
      rw [← contains_iff, contains, get?_put, if_neg hne]
      exact contains_iff.2 hname
    show put name entry (extend (put head.1 head.2 t) rest) = _
    rw [ih hput hrest, put_comm hne hname]
    rfl

/-- What is put into a table comes out last when it extends another. -/
theorem extend_put (hs : (names s).Nodup) (t : Table α) :
    extend t (put name entry s) = put name entry (extend t s) := by
  induction s generalizing t with
  | nil => rfl
  | cons head rest ih =>
    obtain ⟨n, e⟩ := head
    obtain ⟨hn, hrest⟩ := List.nodup_cons.1 hs
    rw [put]
    split
    · next heq =>
      have hput : name ∈ names (put name e t) := by
        rw [← contains_iff, contains, get?_put, if_pos rfl]
        rfl
      subst heq
      show extend (put n entry t) rest = put n entry (extend (put n e t) rest)
      rw [put_extend hput hn, put_put]
    · exact ih hrest (put n e t)

theorem extend_append (t s u : Table α) : extend t (s ++ u) = extend (extend t s) u :=
  List.foldl_append

/-- Entries that are hidden in a table do not come out again when it extends another. -/
theorem extend_ofList (t : Table α) (entries : List (String × α)) :
    extend t (ofList entries) = extend t entries := by
  induction entries using List.reverseRecOn with
  | nil => rfl
  | append_singleton entries e ih =>
    rw [ofList_concat, extend_put (nodup_ofList entries), ih, extend_append]
    rfl

theorem extend_eq_ofList (ht : (names t).Nodup) (s : Table α) : extend t s = ofList (t ++ s) := by
  rw [ofList, extend_append, ← ofList, ofList_of_nodup ht]

/-- Only the table in the middle must not name anything twice. -/
theorem extend_assoc (hs : (names s).Nodup) (t u : Table α) :
    extend (extend t s) u = extend t (extend s u) := by
  rw [extend_eq_ofList hs, extend_ofList, extend_append]

theorem extend_layers (ht : (names t).Nodup) (layers : List (Table α)) :
    layers.foldl extend t = ofList (t :: layers).flatten := by
  induction layers generalizing t with
  | nil => rw [List.flatten_singleton, ofList_of_nodup ht, List.foldl_nil]
  | cons layer rest ih =>
    rw [List.foldl_cons, ih (nodup_extend ht), List.flatten_cons, List.flatten_cons,
      List.flatten_cons, ← extend_eq_ofList (nodup_extend ht), ← extend_eq_ofList ht,
      extend_append]

/-! ## What is seen of some layers -/

/-- What is seen of some tables that lie on one another, the first at the bottom: for every name the
entry of the topmost table that has one, in the place that the name has in the lowest. -/
structure Shows (layers : List (Table α)) (t : Table α) : Prop where
  entries : ∀ name, get? t name = layers.reverse.findSome? (get? · name)
  order : names t = (layers.flatMap names).eraseDups

theorem get?_flatten (layers : List (Table α)) (name : String) :
    get? layers.flatten name = layers.findSome? (get? · name) := by
  induction layers with
  | nil => rfl
  | cons layer rest ih =>
    rw [List.flatten_cons, get?_append, ih, List.findSome?_cons]
    cases get? layer name <;> rfl

theorem get?_reverse (ht : (names t).Nodup) (name : String) : get? t.reverse name = get? t name := by
  rw [← get?_ofList, ofList_of_nodup ht]

theorem shows_ofList {layers : List (Table α)} (h : ∀ layer ∈ layers, (names layer).Nodup) :
    Shows layers (ofList layers.flatten) where
  entries name := by
    have hreverse : (layers.map List.reverse).reverse.map (get? · name) =
        layers.reverse.map (get? · name) := by
      rw [← List.map_reverse, List.map_map]
      exact List.map_congr_left fun layer hl => get?_reverse (h layer (List.mem_reverse.1 hl)) name
    have hmap : ∀ ls : List (Table α),
        ls.findSome? (get? · name) = (ls.map (get? · name)).findSome? id := by
      intro ls
      rw [List.findSome?_map, Function.id_comp]
    rw [get?_ofList, List.reverse_flatten, get?_flatten, hmap, hreverse, ← hmap]
  order := by
    rw [names_ofList]
    exact congrArg List.eraseDups List.map_flatten

/-- A name that the upper layers do not have is seen as the lowest has it. -/
theorem Shows.get?_eq {layers : List (Table α)} {t s : Table α} (h : Shows (s :: layers) t)
    (hname : ∀ layer ∈ layers, name ∉ names layer) : get? t name = get? s name := by
  have hnone : layers.reverse.findSome? (get? · name) = none :=
    List.findSome?_eq_none_iff.2 fun layer hl =>
      get?_eq_none_iff.2 (hname layer (List.mem_reverse.1 hl))
  rw [h.entries, List.reverse_cons, List.findSome?_append, hnone, Option.none_or,
    List.findSome?_singleton]

end Table

/-! ## Catalogues -/

namespace Catalogue

/-- A catalogue that has one text for each key. -/
structure Distinct (c : Catalogue) : Prop where
  messages : (Table.names c.messages).Nodup
  descriptions : (Table.names c.descriptions).Nodup

theorem distinct_empty : Distinct empty := ⟨List.nodup_nil, List.nodup_nil⟩

theorem distinct_standard : Distinct standard := ⟨by decide +kernel, by decide +kernel⟩

theorem nodup_texts? {f : Form} {t : Table String} (h : f.texts? = some t) :
    (Table.names t).Nodup := by
  simp only [Form.texts?, Option.bind_eq_bind, Option.bind_eq_some_iff] at h
  obtain ⟨_, -, entries, -, h⟩ := h
  exact Option.some.inj h ▸ Table.nodup_ofList entries

/-- The texts of a catalogue that is read are distinct, however often the text repeats a key. -/
theorem distinct_of_read {format : TextFormat} {source text : String} {c : Catalogue}
    (h : format.readCatalogue source text = .ok c) : c.Distinct := by
  have hmember : ∀ {ms : List (String × Form)} {name : String} {t : Table String},
      Form.member ms name (some []) Form.texts? = some t → (Table.names t).Nodup := by
    intro ms name t ht
    unfold Form.member at ht
    split at ht
    · exact Option.some.inj ht ▸ List.nodup_nil
    · exact nodup_texts? ht
  unfold TextFormat.readCatalogue at h
  split at h
  · next hread =>
    obtain rfl := Except.ok.inj h
    simp only [Catalogue.ofForm?, Option.bind_eq_bind, Option.bind_eq_some_iff] at hread
    obtain ⟨_, -, _, -, messages, hmessages, descriptions, hdescriptions, h⟩ := hread
    exact Option.some.inj h ▸ ⟨hmember hmessages, hmember hdescriptions⟩
  · cases h

variable {a b c : Catalogue} {overlays : List Catalogue}

theorem Distinct.overlay (ha : a.Distinct) (b : Catalogue) : (a.overlay b).Distinct :=
  ⟨Table.nodup_extend ha.messages, Table.nodup_extend ha.descriptions⟩

/-- The texts of a kind, of a catalogue with overlays. -/
theorem shows_overlays (texts : Catalogue → Table String)
    (hoverlay : ∀ a b : Catalogue, texts (a.overlay b) = (texts a).extend (texts b))
    (ha : (Table.names (texts a)).Nodup)
    (hoverlays : ∀ o ∈ overlays, (Table.names (texts o)).Nodup) :
    Table.Shows ((a :: overlays).map texts) (texts (overlays.foldl overlay a)) := by
  have hfold : texts (overlays.foldl overlay a) = (overlays.map texts).foldl .extend (texts a) := by
    rw [List.foldl_map]
    exact (List.foldl_hom texts fun a b => (hoverlay a b).symm).symm
  rw [hfold, Table.extend_layers ha]
  refine Table.shows_ofList fun layer hl => ?_
  obtain ⟨o, ho, rfl⟩ := List.mem_map.1 hl
  rcases List.mem_cons.1 ho with rfl | ho
  · exact ha
  · exact hoverlays o ho

/-- Overlays can be put together in any grouping, and the empty catalogue adds nothing to them.
After any overlays each key has the text of the last one that defines it, and stands where it was
defined first; issues and steps whose key no overlay mentions have the text that they had. -/
theorem overlays_compose (ha : a.Distinct) (hb : b.Distinct) (c : Catalogue)
    (hoverlays : ∀ o ∈ overlays, o.Distinct) :
    (a.overlay b).overlay c = a.overlay (b.overlay c) ∧
      a.overlay empty = a ∧ empty.overlay a = a ∧
      Table.Shows ((a :: overlays).map messages) (overlays.foldl overlay a).messages ∧
      Table.Shows ((a :: overlays).map descriptions) (overlays.foldl overlay a).descriptions ∧
      (∀ issue : Issue, (∀ o ∈ overlays, issue.key ∉ Table.names o.messages) →
        (overlays.foldl overlay a).render issue = a.render issue) ∧
      ∀ step : Step, (∀ o ∈ overlays, step.key ∉ Table.names o.descriptions) →
        (overlays.foldl overlay a).describeStep step = a.describeStep step := by
  have hmessages := shows_overlays messages (fun _ _ => rfl) ha.messages
    fun o ho => (hoverlays o ho).messages
  have hdescriptions := shows_overlays descriptions (fun _ _ => rfl) ha.descriptions
    fun o ho => (hoverlays o ho).descriptions
  refine ⟨?_, rfl, ?_, hmessages, hdescriptions, fun issue hissue => ?_, fun step hstep => ?_⟩
  · exact congrArg₂ Catalogue.mk (Table.extend_assoc hb.messages _ _)
      (Table.extend_assoc hb.descriptions _ _)
  · exact congrArg₂ Catalogue.mk (Table.ofList_of_nodup ha.messages)
      (Table.ofList_of_nodup ha.descriptions)
  · rw [render, render, hmessages.get?_eq (List.forall_mem_map.2 hissue)]
  · rw [describeStep, describeStep, hdescriptions.get?_eq (List.forall_mem_map.2 hstep)]

/-- An overlay with a text for a key of the standard catalogue, and one for a key of its own. -/
def polite : Catalogue :=
  { messages := [("generic/required", "must be filled in"), ("custom/odd", "should be even")]
    descriptions := [("equals", "same as {0}")] }

/-- An overlay with other texts for both keys. -/
def blunt : Catalogue :=
  { messages := [("custom/odd", "is odd"), ("generic/required", "is missing")] }

theorem overlays_compose_blunt :
    (standard.Distinct ∧ polite.Distinct ∧ ∀ o ∈ [polite, blunt], o.Distinct) ∧
      (standard.overlay polite).overlay blunt = standard.overlay (polite.overlay blunt) ∧
      Table.get? ((standard.overlay polite).overlay blunt).messages "generic/required" =
        some "is missing" ∧
      (Table.names ((standard.overlay polite).overlay blunt).messages).getLast? =
        some "custom/odd" ∧
      ((standard.overlay polite).overlay blunt).render (.of "generic/forbidden" []) =
        standard.render (.of "generic/forbidden" []) := by
  have hpolite : polite.Distinct := ⟨by decide, by decide⟩
  have hblunt : blunt.Distinct := ⟨by decide, by decide⟩
  have hboth : ∀ o ∈ [polite, blunt], o.Distinct := by
    simp only [List.forall_mem_cons]
    exact ⟨hpolite, hblunt, List.forall_mem_nil _⟩
  obtain ⟨hassoc, -, -, hshows, -, hrender, -⟩ :=
    overlays_compose distinct_standard hpolite blunt hboth
  refine ⟨⟨distinct_standard, hpolite, hboth⟩, hassoc, ?_, ?_, hrender _ ?_⟩
  · exact (hshows.entries "generic/required").trans (by decide +kernel)
  · exact (congrArg List.getLast? hshows.order).trans (by decide +kernel)
  · simp only [List.forall_mem_cons]
    exact ⟨by decide, by decide, List.forall_mem_nil _⟩

end Catalogue

end Intake
