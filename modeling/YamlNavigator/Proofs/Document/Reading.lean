import YamlNavigator.Proofs.Document.Composition
import YamlNavigator.Proofs.Document.Tiles
import YamlNavigator.Proofs.Yaml.Division

/-!
The units that composed trees were read from.

* `Compose.Composes`: how a section of the grammar is composed from the units that it takes, with
  one case for each rule of the grammar;
* `Compose.composes_of_derives`: whatever events a section takes, composing them answers what the
  section is composed to, by induction on the derivation;
* `Compose.ComposesDocuments`, `Compose.composes_of_documents`: the same for the documents of a
  stream;
* `exists_composes_of_parse`: the same for the texts that are accepted.

What holds of composed trees and their units is then shown by induction on `Composes`, without
another look at events.
-/

namespace YamlNavigator

open Yaml Grammar

namespace Compose

variable {src : Source} {ps mid mid' us back : List (Lexeme × Token)} {u : Lexeme × Token}
variable {path : String} {anchor tag : Option String} {k : Nat} {a : Anchors} {flow : Bool}
variable {es more : List Event}

/-! ### Nodes from their events -/

/-- The node of the event of a scalar. -/
lemma node_scalar {value : String} {start m : Mark} {c : Composed Node}
    (hc : node src k a path (⟨.scalar value anchor tag, start, m⟩ :: more) = .ok c) :
    c.rest = more ∧ c.value = .scalar (nodeInfo src isScalarUnit path anchor tag
      ⟨.scalar value anchor tag, start, m⟩ m.index) (some value) := by
  obtain ⟨k', e, rest, -, heq, hrun⟩ := run_of_node hc
  cases heq
  cases hrun with
  | reference step => cases step
  | sequence step => cases step
  | mapping step => cases step
  | scalar step =>
      cases step
      exact ⟨rfl, rfl⟩

/-- The node of the event of an alias. -/
lemma node_reference {name : String} {start m : Mark} {c : Composed Node}
    (hc : node src k a path (⟨.reference name, start, m⟩ :: more) = .ok c) :
    c.rest = more ∧ c.value = .reference (nodeInfo src isReferenceUnit path none none
      ⟨.reference name, start, m⟩ m.index) (some name) := by
  obtain ⟨k', e, rest, -, heq, hrun⟩ := run_of_node hc
  cases heq
  cases hrun with
  | scalar step => cases step
  | sequence step => cases step
  | mapping step => cases step
  | reference step =>
      cases step
      exact ⟨rfl, rfl⟩

/-- The node of the events of a sequence. -/
lemma node_sequence {start m : Mark} {c : Composed Node}
    (hc : node src k a path (⟨.sequenceStart anchor tag flow, start, m⟩ :: more) = .ok c) :
    ∃ n d, items src n a path 0 more = .ok d ∧ c.rest = d.rest ∧
      c.value = .sequence (nodeInfo src isSequenceUnit path anchor tag
        ⟨.sequenceStart anchor tag flow, start, m⟩ (collectionStop flow d.value)) d.value.nodes := by
  obtain ⟨k', e, rest, -, heq, hrun⟩ := run_of_node hc
  cases heq
  cases hrun with
  | scalar step => cases step
  | reference step => cases step
  | mapping step => cases step
  | sequence step hitems =>
      cases step
      exact ⟨_, _, hitems, rfl, rfl⟩

/-- The node of the events of a mapping. -/
lemma node_mapping {start m : Mark} {c : Composed Node}
    (hc : node src k a path (⟨.mappingStart anchor tag flow, start, m⟩ :: more) = .ok c) :
    ∃ n d, entries src n a path more = .ok d ∧ c.rest = d.rest ∧
      c.value = .mapping (nodeInfo src isMappingUnit path anchor tag
        ⟨.mappingStart anchor tag flow, start, m⟩ (collectionStop flow d.value)) d.value.nodes := by
  obtain ⟨k', e, rest, -, heq, hrun⟩ := run_of_node hc
  cases heq
  cases hrun with
  | scalar step => cases step
  | reference step => cases step
  | sequence step => cases step
  | mapping step hentries =>
      cases step
      exact ⟨_, _, hentries, rfl, rfl⟩

/-! ### What sections are composed to -/

/-- A node as the contents of a section of the grammar. -/
def Contents.one (v : Node) : Contents := ⟨[v], v.stop⟩

/-- A section of the grammar takes the units `mid` in front of the units `back`, and is composed to
some contents. The paths of nodes are left open. -/
inductive Composes (src : Source) :
    Section → List (Lexeme × Token) → List (Lexeme × Token) → Contents → Prop
  | reference {u : Lexeme × Token} {back : List (Lexeme × Token)} {name path : String}
      (h : u.1.content = .reference name) :
      Composes src .node [u] back (.one (.reference (nodeInfo src isReferenceUnit path none none
        ⟨.reference name, u.1.start, u.1.stop⟩ u.1.stop.index) (some name)))
  | scalar {ps back : List (Lexeme × Token)} {u : Lexeme × Token} {text path : String}
      {style : ScalarStyle} {anchor tag : Option String}
      (props : Announces (ps.map Prod.fst) anchor tag) (h : u.1.content = .scalar text style) :
      Composes src .node (ps ++ [u]) back (.one (.scalar (nodeInfo src isScalarUnit path anchor tag
        ⟨.scalar text anchor tag, (front ((ps ++ u :: back).map Prod.fst)).start, u.1.stop⟩
        u.1.stop.index) (some text)))
  | bare {ps back : List (Lexeme × Token)} {u : Lexeme × Token} {path : String}
      {anchor tag : Option String} (props : Announces ((ps ++ [u]).map Prod.fst) anchor tag)
      (clear : Clear (back.map Prod.fst)) :
      Composes src .node (ps ++ [u]) back (.one (.scalar (nodeInfo src isScalarUnit path anchor tag
        ⟨.scalar "" anchor tag, (front ((ps ++ u :: back).map Prod.fst)).start, u.1.stop⟩
        u.1.stop.index) (some "")))
  | empty {back : List (Lexeme × Token)} {m : Mark} {path : String}
      (h : CutAt (src.units.map Prod.fst) m.index (back.map Prod.fst)) :
      Composes src .node [] back (.one (.scalar (nodeInfo src isScalarUnit path none none
        (emptyScalar m) m.index) (some "")))
  | sequence {ps mid back : List (Lexeme × Token)} {u : Lexeme × Token} {path : String}
      {anchor tag : Option String} {flow : Bool} {m : Mark} {c : Contents}
      (props : Announces (ps.map Prod.fst) anchor tag) (opens : opensSequence u.1.content = true)
      (le : u.1.stop.index ≤ m.index) (items : Composes src (.items flow) (u :: mid) back c) :
      Composes src .node (ps ++ u :: mid) back (.one (.sequence
        (nodeInfo src isSequenceUnit path anchor tag ⟨.sequenceStart anchor tag flow,
          (front ((ps ++ u :: (mid ++ back)).map Prod.fst)).start, m⟩ (collectionStop flow c))
        c.nodes))
  | mapping {ps mid back : List (Lexeme × Token)} {u : Lexeme × Token} {path : String}
      {anchor tag : Option String} {flow : Bool} {m : Mark} {c : Contents}
      (props : Announces (ps.map Prod.fst) anchor tag) (opens : opensMapping u.1.content = true)
      (le : u.1.stop.index ≤ m.index) (entries : Composes src (.entries flow) (u :: mid) back c) :
      Composes src .node (ps ++ u :: mid) back (.one (.mapping
        (nodeInfo src isMappingUnit path anchor tag ⟨.mappingStart anchor tag flow,
          (front ((ps ++ u :: (mid ++ back)).map Prod.fst)).start, m⟩ (collectionStop flow c))
        c.nodes))
  | valued {u : Lexeme × Token} {mid back : List (Lexeme × Token)} {c : Contents}
      (h : u.1.content = .value) (node : Composes src .node mid back c) :
      Composes src .value (u :: mid) back c
  | missing {back : List (Lexeme × Token)} {m : Mark} {path : String}
      (h : CutAt (src.units.map Prod.fst) m.index (back.map Prod.fst)) :
      Composes src .value [] back (.one (.scalar (nodeInfo src isScalarUnit path none none
        (emptyScalar m) m.index) (some "")))
  | frame {s : Section} {u : Lexeme × Token} {mid back : List (Lexeme × Token)} {c : Contents}
      (h : s.frames u.1.content = true) (more : Composes src s mid back c) :
      Composes src s (u :: mid) back c
  | itemsEnd {flow : Bool} {back : List (Lexeme × Token)} {m : Mark}
      (h : CutAt (src.units.map Prod.fst) m.index (back.map Prod.fst)) :
      Composes src (.items flow) [] back ⟨[], m.index⟩
  | item {flow : Bool} {lead : Lexeme × Token} {mid mid' back : List (Lexeme × Token)} {v : Node}
      {c : Contents} (leads : leadsItem flow lead.1.content = true)
      (node : Composes src .node mid (mid' ++ back) (.one v))
      (more : Composes src (.items flow) mid' back c) :
      Composes src (.items flow) (lead :: (mid ++ mid')) back ⟨v :: c.nodes, c.stop⟩
  | pair {lead key : Lexeme × Token} {mid mid' back : List (Lexeme × Token)} {path : String}
      {c c' : Contents} (leads : leadsItem true lead.1.content = true) (h : key.1.content = .key)
      (entries : Composes src (.entries true) (key :: mid) (mid' ++ back) c)
      (more : Composes src (.items true) mid' back c') :
      Composes src (.items true) (lead :: (key :: mid ++ mid')) back
        ⟨.mapping (nodeInfo src isMappingUnit path none none
          ⟨.mappingStart none none true, key.1.start, key.1.stop⟩ (collectionStop true c)) c.nodes ::
            c'.nodes, c'.stop⟩
  | entriesEnd {flow : Bool} {back : List (Lexeme × Token)} {m : Mark}
      (h : CutAt (src.units.map Prod.fst) m.index (back.map Prod.fst)) :
      Composes src (.entries flow) [] back ⟨[], m.index⟩
  | entry {flow : Bool} {lead : Lexeme × Token} {mid mid' mid'' back : List (Lexeme × Token)}
      {path target : String} {k v : Node} {c : Contents}
      (leads : leadsKey flow lead.1.content = true)
      (key : Composes src .node mid (mid' ++ (mid'' ++ back)) (.one k))
      (value : Composes src .value mid' (mid'' ++ back) (.one v))
      (more : Composes src (.entries flow) mid'' back c) :
      Composes src (.entries flow) (lead :: (mid ++ mid' ++ mid'')) back
        ⟨.entryOf target (k.mapPaths (reroot path target)) v :: c.nodes, c.stop⟩

/-- What composing the events of a section of the grammar answers, if further events follow: it
leaves those, and the section is composed to what it answers. -/
def Answers (src : Source) (mid back : List (Lexeme × Token)) (es : List Event) (s : Section) :
    Prop :=
  match s with
  | .node | .value => ∀ k a path more c, node src k a path (es ++ more) = .ok c →
      c.rest = more ∧ Composes src s mid back (.one c.value)
  | .items _ => ∀ k a path index more c, items src k a path index (es ++ more) = .ok c →
      c.rest = more ∧ Composes src s mid back c.value
  | .entries _ => ∀ k a path more c, entries src k a path (es ++ more) = .ok c →
      c.rest = more ∧ Composes src s mid back c.value

/-- A unit around the contents of a collection may stand in front. -/
lemma Answers.frame {s : Section} (hframes : s.frames u.1.content = true)
    (h : Answers src mid back es s) : Answers src (u :: mid) back es s := by
  cases s with
  | node => cases hframes
  | value => cases hframes
  | items flow =>
      intro k a path index more c hc
      obtain ⟨hrest, hcomposes⟩ := h k a path index more c hc
      exact ⟨hrest, .frame hframes hcomposes⟩
  | entries flow =>
      intro k a path more c hc
      obtain ⟨hrest, hcomposes⟩ := h k a path more c hc
      exact ⟨hrest, .frame hframes hcomposes⟩

/-- The end of a sequence. -/
lemma answers_itemsEnd {start m : Mark}
    (h : CutAt (src.units.map Prod.fst) m.index (back.map Prod.fst)) :
    Answers src [] back [⟨.sequenceEnd, start, m⟩] (.items flow) := by
  intro k a path index more c hc
  obtain ⟨k', e, rest, -, heq, hrun⟩ := run_of_items hc
  cases heq
  cases hrun with
  | item step => exact absurd rfl step
  | done step => exact ⟨rfl, .itemsEnd h⟩

/-- The end of a mapping. -/
lemma answers_entriesEnd {start m : Mark}
    (h : CutAt (src.units.map Prod.fst) m.index (back.map Prod.fst)) :
    Answers src [] back [⟨.mappingEnd, start, m⟩] (.entries flow) := by
  intro k a path more c hc
  obtain ⟨k', e, rest, -, heq, hrun⟩ := run_of_entries hc
  cases heq
  cases hrun with
  | entry step => exact absurd rfl step
  | done step => exact ⟨rfl, .entriesEnd h⟩

/-- The events of a node do not begin with the end of a collection. -/
lemma exists_head_of_derives {L ls rest : List Lexeme} (h : Derives L .node ls es rest) :
    ∃ e es', es = e :: es' ∧ e.step ≠ .sequenceEnd ∧ e.step ≠ .mappingEnd := by
  cases h with
  | frame h _ => cases h
  | _ => exact ⟨_, _, rfl, by simp [emptyScalar], by simp [emptyScalar]⟩

/-- Composed items are a node and further items, if their events do not begin with an end. -/
lemma items_append {index : Nat} {c : Composed Contents}
    (hhead : ∃ e es', es = e :: es' ∧ e.step ≠ .sequenceEnd)
    (hc : items src k a path index (es ++ more) = .ok c) :
    ∃ n item d, node src n a (itemPath path index) (es ++ more) = .ok item ∧
      items src n item.anchors path (index + 1) item.rest = .ok d ∧ c.rest = d.rest ∧
      c.value = ⟨item.value :: d.value.nodes, d.value.stop⟩ := by
  obtain ⟨e, es, rfl, hend⟩ := hhead
  obtain ⟨n, e', rest, -, heq, hrun⟩ := run_of_items hc
  cases heq
  cases hrun with
  | done step => exact absurd step hend
  | item step hitem hmore => exact ⟨n, _, _, hitem, hmore, rfl, rfl⟩

/-- Composed entries are a key, its value and further entries, if their events do not begin with an
end. -/
lemma entries_append {c : Composed Contents}
    (hhead : ∃ e es', es = e :: es' ∧ e.step ≠ .mappingEnd)
    (hc : entries src k a path (es ++ more) = .ok c) :
    ∃ n key value d target, node src n a path (es ++ more) = .ok key ∧
      node src n key.anchors target key.rest = .ok value ∧
      entries src n value.anchors path value.rest = .ok d ∧ c.rest = d.rest ∧
      c.value = ⟨.entryOf target (key.value.mapPaths (reroot path target)) value.value ::
        d.value.nodes, d.value.stop⟩ := by
  obtain ⟨e, es, rfl, hend⟩ := hhead
  obtain ⟨n, e', rest, -, heq, hrun⟩ := run_of_entries hc
  cases heq
  cases hrun with
  | done step => exact absurd step hend
  | entry step hkey htarget hvalue hmore => exact ⟨n, _, _, _, _, hkey, hvalue, hmore, rfl, rfl⟩

/-- A sequence is composed from its first event and its items. -/
lemma Answers.sequence {m : Mark} (props : Announces (ps.map Prod.fst) anchor tag)
    (opens : opensSequence u.1.content = true) (hle : u.1.stop.index ≤ m.index)
    (h : Answers src (u :: mid) back es (.items flow)) :
    Answers src (ps ++ u :: mid) back (⟨.sequenceStart anchor tag flow,
      (front ((ps ++ u :: (mid ++ back)).map Prod.fst)).start, m⟩ :: es) .node := by
  intro k a path more c hc
  obtain ⟨n, d, hitems, hrest, hv⟩ := node_sequence hc
  obtain ⟨hrest', hcomposes⟩ := h _ _ _ _ _ _ hitems
  exact ⟨hrest.trans hrest', hv ▸ .sequence props opens hle hcomposes⟩

/-- A mapping is composed from its first event and its entries. -/
lemma Answers.mapping {m : Mark} (props : Announces (ps.map Prod.fst) anchor tag)
    (opens : opensMapping u.1.content = true) (hle : u.1.stop.index ≤ m.index)
    (h : Answers src (u :: mid) back es (.entries flow)) :
    Answers src (ps ++ u :: mid) back (⟨.mappingStart anchor tag flow,
      (front ((ps ++ u :: (mid ++ back)).map Prod.fst)).start, m⟩ :: es) .node := by
  intro k a path more c hc
  obtain ⟨n, d, hentries, hrest, hv⟩ := node_mapping hc
  obtain ⟨hrest', hcomposes⟩ := h _ _ _ _ _ hentries
  exact ⟨hrest.trans hrest', hv ▸ .mapping props opens hle hcomposes⟩

/-- A value is composed from the events behind its colon. -/
lemma Answers.valued (hu : u.1.content = .value) (h : Answers src mid back es .node) :
    Answers src (u :: mid) back es .value := by
  intro k a path more c hc
  obtain ⟨hrest, hcomposes⟩ := h _ _ _ _ _ hc
  exact ⟨hrest, .valued hu hcomposes⟩

/-- An item behind the unit that leads to it, and the items behind that. -/
lemma Answers.item {lead : Lexeme × Token} {es' : List Event}
    (leads : leadsItem flow lead.1.content = true)
    (hhead : ∃ e es₁, es = e :: es₁ ∧ e.step ≠ .sequenceEnd)
    (hnode : Answers src mid (mid' ++ back) es .node)
    (hmore : Answers src mid' back es' (.items flow)) :
    Answers src (lead :: (mid ++ mid')) back (es ++ es') (.items flow) := by
  intro k a path index more c hc
  rw [List.append_assoc] at hc
  obtain ⟨n, item, d, hitem, hitems, hrest, hv⟩ := items_append hhead hc
  obtain ⟨hrest', hitem⟩ := hnode _ _ _ _ _ hitem
  rw [hrest'] at hitems
  obtain ⟨hrest'', hitems⟩ := hmore _ _ _ _ _ _ hitems
  exact ⟨hrest.trans hrest'', hv ▸ .item leads hitem hitems⟩

/-- A pair behind the unit that leads to it, and the items behind that. -/
lemma Answers.pair {lead key : Lexeme × Token} {es' : List Event}
    (leads : leadsItem true lead.1.content = true) (hkey : key.1.content = .key)
    (hentries : Answers src (key :: mid) (mid' ++ back) es (.entries true))
    (hmore : Answers src mid' back es' (.items true)) :
    Answers src (lead :: (key :: mid ++ mid')) back
      (⟨.mappingStart none none true, key.1.start, key.1.stop⟩ :: es ++ es') (.items true) := by
  intro k a path index more c hc
  rw [List.append_assoc] at hc
  obtain ⟨n, item, d, hitem, hitems, hrest, hv⟩ := items_append ⟨_, _, rfl, by simp⟩ hc
  obtain ⟨n', d', hd, hrest', hv'⟩ := node_mapping hitem
  obtain ⟨hrest'', hd⟩ := hentries _ _ _ _ _ hd
  rw [hrest', hrest''] at hitems
  obtain ⟨hrest₃, hitems⟩ := hmore _ _ _ _ _ _ hitems
  rw [hv'] at hv
  exact ⟨hrest.trans hrest₃, hv ▸ .pair leads hkey hd hitems⟩

/-- An entry behind the unit that leads to its key, and the entries behind it. -/
lemma Answers.entry {lead : Lexeme × Token} {mid'' : List (Lexeme × Token)} {es' es'' : List Event}
    (leads : leadsKey flow lead.1.content = true)
    (hhead : ∃ e es₁, es = e :: es₁ ∧ e.step ≠ .mappingEnd)
    (hkey : Answers src mid (mid' ++ (mid'' ++ back)) es .node)
    (hvalue : Answers src mid' (mid'' ++ back) es' .value)
    (hmore : Answers src mid'' back es'' (.entries flow)) :
    Answers src (lead :: (mid ++ mid' ++ mid'')) back (es ++ (es' ++ es'')) (.entries flow) := by
  intro k a path more c hc
  rw [List.append_assoc, List.append_assoc] at hc
  obtain ⟨n, key, value, d, target, hkeynode, hvaluenode, hentries, hrest, hv⟩ :=
    entries_append hhead hc
  obtain ⟨hrest', hkey⟩ := hkey _ _ _ _ _ hkeynode
  rw [hrest'] at hvaluenode
  obtain ⟨hrest'', hvalue⟩ := hvalue _ _ _ _ _ hvaluenode
  rw [hrest''] at hentries
  obtain ⟨hrest₃, hentries⟩ := hmore _ _ _ _ _ hentries
  exact ⟨hrest.trans hrest₃, hv ▸ .entry leads hkey hvalue hentries⟩

/-- The units of a derivation, with their tokens. -/
lemma exists_units {u' : Lexeme} {ls ls' : List Lexeme} (h : us.map Prod.fst = ls ++ u' :: ls') :
    ∃ ps u back, us = ps ++ u :: back ∧ ps.map Prod.fst = ls ∧ u.1 = u' ∧
      back.map Prod.fst = ls' := by
  obtain ⟨ps, us', rfl, hps, hus⟩ := List.map_eq_append_iff.mp h
  obtain ⟨u, back, rfl, hu, hback⟩ := List.map_eq_cons_iff.mp hus
  exact ⟨ps, u, back, rfl, hps, hu, hback⟩

/-- If fewer units than behind the first one are left, then the first one was taken. -/
lemma exists_taken (hsplit : u :: us = mid ++ back)
    (h : (back.map Prod.fst).length ≤ (us.map Prod.fst).length) :
    ∃ mid', mid = u :: mid' ∧ us = mid' ++ back := by
  cases mid with
  | nil =>
      rw [List.nil_append] at hsplit
      rw [← hsplit, List.length_map, List.length_map, List.length_cons] at h
      omega
  | cons w mid' =>
      obtain ⟨rfl, hus⟩ := List.cons.inj hsplit
      exact ⟨mid', rfl, hus⟩

/-- **Derivations are composed.** Whatever events a section of the grammar takes from the front of
the units of a stream, composing them answers what the section is composed to from the units that
were taken. -/
theorem composes_of_derives {s : Section} {ls rest : List Lexeme}
    (h : Derives (src.units.map Prod.fst) s ls es rest) :
    ∀ us, us.map Prod.fst = ls →
      ∃ mid back, us = mid ++ back ∧ back.map Prod.fst = rest ∧ Answers src mid back es s := by
  induction h with
  | reference hl =>
      intro us hus
      obtain ⟨u, back, rfl, rfl, rfl⟩ := List.map_eq_cons_iff.mp hus
      refine ⟨[u], back, rfl, rfl, fun k a path more c hc => ?_⟩
      obtain ⟨hrest, hv⟩ := node_reference hc
      exact ⟨hrest, hv ▸ .reference hl⟩
  | scalar props hl =>
      intro us hus
      obtain ⟨ps, u, back, rfl, rfl, rfl, rfl⟩ := exists_units hus
      refine ⟨ps ++ [u], back, by simp, rfl, fun k a path more c hc => ?_⟩
      rw [← hus] at hc
      obtain ⟨hrest, hv⟩ := node_scalar hc
      exact ⟨hrest, hv ▸ .scalar props hl⟩
  | bare props hclear =>
      intro us hus
      obtain ⟨ps, u, back, rfl, rfl, rfl, rfl⟩ := exists_units hus
      refine ⟨ps ++ [u], back, by simp, rfl, fun k a path more c hc => ?_⟩
      rw [← hus] at hc
      obtain ⟨hrest, hv⟩ := node_scalar hc
      exact ⟨hrest, hv ▸ .bare (by simpa using props) hclear⟩
  | empty hcut =>
      rintro us rfl
      refine ⟨[], us, rfl, rfl, fun k a path more c hc => ?_⟩
      obtain ⟨hrest, hv⟩ := node_scalar hc
      exact ⟨hrest, hv ▸ .empty hcut⟩
  | missing hcut =>
      rintro us rfl
      refine ⟨[], us, rfl, rfl, fun k a path more c hc => ?_⟩
      obtain ⟨hrest, hv⟩ := node_scalar hc
      exact ⟨hrest, hv ▸ .missing hcut⟩
  | sequence props opens hstop taken r ih =>
      intro us hus
      obtain ⟨ps, u, us, rfl, rfl, rfl, rfl⟩ := exists_units hus
      obtain ⟨mid, back, hsplit, rfl, hitems⟩ := ih (u :: us) rfl
      obtain ⟨mid, rfl, rfl⟩ := exists_taken hsplit taken
      rw [← hus]
      exact ⟨ps ++ u :: mid, back, by simp, rfl, .sequence props opens hstop.ge hitems⟩
  | mapping props opens hstop taken r ih =>
      intro us hus
      obtain ⟨ps, u, us, rfl, rfl, rfl, rfl⟩ := exists_units hus
      obtain ⟨mid, back, hsplit, rfl, hentries⟩ := ih (u :: us) rfl
      obtain ⟨mid, rfl, rfl⟩ := exists_taken hsplit taken
      rw [← hus]
      exact ⟨ps ++ u :: mid, back, by simp, rfl, .mapping props opens hstop.ge hentries⟩
  | valued hl node ih =>
      intro us hus
      obtain ⟨u, us, rfl, rfl, rfl⟩ := List.map_eq_cons_iff.mp hus
      obtain ⟨mid, back, rfl, hback, hnode⟩ := ih us rfl
      exact ⟨u :: mid, back, rfl, hback, .valued hl hnode⟩
  | frame hframes r ih =>
      intro us hus
      obtain ⟨u, us, rfl, rfl, rfl⟩ := List.map_eq_cons_iff.mp hus
      obtain ⟨mid, back, rfl, hback, hanswers⟩ := ih us rfl
      exact ⟨u :: mid, back, rfl, hback, hanswers.frame hframes⟩
  | itemsEnd closes hcut =>
      intro us hus
      obtain ⟨u, us, rfl, rfl, rfl⟩ := List.map_eq_cons_iff.mp hus
      exact ⟨[u], us, rfl, rfl, (answers_itemsEnd hcut).frame
        (closes ▸ Section.frames_closer_items _)⟩
  | itemsStop behind hcut =>
      rintro us rfl
      exact ⟨[], us, rfl, rfl, answers_itemsEnd hcut⟩
  | entriesEnd closes hcut =>
      intro us hus
      obtain ⟨u, us, rfl, rfl, rfl⟩ := List.map_eq_cons_iff.mp hus
      exact ⟨[u], us, rfl, rfl, (answers_entriesEnd hcut).frame
        (closes ▸ Section.frames_closer_entries _)⟩
  | entriesStop behind hcut =>
      rintro us rfl
      exact ⟨[], us, rfl, rfl, answers_entriesEnd hcut⟩
  | item leads node more ih ih' =>
      intro us hus
      obtain ⟨lead, us, rfl, rfl, rfl⟩ := List.map_eq_cons_iff.mp hus
      obtain ⟨mid, us, rfl, rfl, hnode⟩ := ih us rfl
      obtain ⟨mid', back, rfl, hback, hmore⟩ := ih' us rfl
      obtain ⟨e, es', heq, hend, -⟩ := exists_head_of_derives node
      exact ⟨lead :: (mid ++ mid'), back, by simp, hback,
        .item leads ⟨e, es', heq, hend⟩ hnode hmore⟩
  | pair leads hkey taken r more ih ih' =>
      intro us hus
      obtain ⟨lead, us', rfl, rfl, hus'⟩ := List.map_eq_cons_iff.mp hus
      obtain ⟨key, us, rfl, rfl, rfl⟩ := List.map_eq_cons_iff.mp hus'
      obtain ⟨mid, us', hsplit, rfl, hentries⟩ := ih (key :: us) rfl
      obtain ⟨mid, rfl, rfl⟩ := exists_taken hsplit taken
      obtain ⟨mid', back, rfl, hback, hmore⟩ := ih' us' rfl
      exact ⟨lead :: (key :: mid ++ mid'), back, by simp, hback,
        .pair leads hkey hentries hmore⟩
  | entry leads key value more ih ih' ih'' =>
      intro us hus
      obtain ⟨lead, us, rfl, rfl, rfl⟩ := List.map_eq_cons_iff.mp hus
      obtain ⟨mid, us, rfl, rfl, hkey⟩ := ih us rfl
      obtain ⟨mid', us, rfl, rfl, hvalue⟩ := ih' us rfl
      obtain ⟨mid'', back, rfl, hback, hmore⟩ := ih'' us rfl
      obtain ⟨e, es', heq, -, hend⟩ := exists_head_of_derives key
      exact ⟨lead :: (mid ++ mid' ++ mid''), back, by simp, hback,
        .entry leads ⟨e, es', heq, hend⟩ hkey hvalue hmore⟩

/-! ### Documents -/

/-- What stands in front of the body of a document: nothing, directly behind the start of the
stream, or directives and a marker. -/
lemma heads_of_opens {L ks : List Lexeme} {first : Bool} {heads : List (Lexeme × Token)} {e : Event}
    (h : Opens L first (heads.map Prod.fst) ks e) :
    (first = true ∧ heads = [] ∧ e.step = .documentStart false ∧ ∃ lead, L = lead :: ks) ∨
      ∃ directives u, heads = directives ++ [u] ∧
        (∀ v ∈ directives, v.1.content.isDirective = true) ∧ u.1.content = .documentStart ∧
        e = ⟨.documentStart true, (directives.headD u).1.start, u.1.stop⟩ := by
  generalize hheads : heads.map Prod.fst = ls at h
  cases h with
  | bare hlead => exact .inl ⟨rfl, List.map_eq_nil_iff.mp hheads, rfl, _, hlead⟩
  | marked isDirective hmarker =>
      obtain ⟨directives, ws, rfl, rfl, hws⟩ := List.map_eq_append_iff.mp hheads
      obtain ⟨u, rfl, rfl⟩ := List.map_eq_singleton_iff.mp hws
      refine .inr ⟨directives, u, rfl, fun v hv => isDirective v.1 (List.mem_map_of_mem hv), hmarker,
        ?_⟩
      cases directives <;> rfl

/-- Documents are composed from units, up to the end of the stream; `first` tells whether the first
one may do without a marker. -/
inductive ComposesDocuments (src : Source) : Bool → List (Lexeme × Token) → List Node → Prop
  | done {first : Bool} {us : List (Lexeme × Token)} (h : ∀ u ∈ us, u.1.content = .streamEnd) :
      ComposesDocuments src first us []
  | closed {first : Bool} {u : Lexeme × Token} {us : List (Lexeme × Token)} {ds : List Node}
      (h : u.1.content = .documentEnd) (more : ComposesDocuments src false us ds) :
      ComposesDocuments src first (u :: us) ds
  | document {first : Bool} {heads mid closers back : List (Lexeme × Token)} {e last : Event}
      {body : Node} {ds : List Node}
      (opens : Opens (src.units.map Prod.fst) first (heads.map Prod.fst)
        ((mid ++ (closers ++ back)).map Prod.fst) e)
      (start : CutAt (src.units.map Prod.fst) e.start.index
        ((heads ++ (mid ++ (closers ++ back))).map Prod.fst))
      (node : Composes src .node mid (closers ++ back) (.one body)) (path : body.path = rootPath)
      (closes : ∀ u ∈ closers, u.1.content = .documentEnd)
      (stop : CutAt (src.units.map Prod.fst) last.stop.index (back.map Prod.fst))
      (more : ComposesDocuments src false back ds) :
      ComposesDocuments src first (heads ++ (mid ++ (closers ++ back)))
        (.documentOf (some body) (documentToken src e last body) e.start.index last.stop.index :: ds)

/-- All that is composed from a stream are documents. -/
lemma ComposesDocuments.kind_eq {first : Bool} {ds : List Node}
    (h : ComposesDocuments src first us ds) : ∀ d ∈ ds, d.kind = .document := by
  induction h with
  | done _ => simp
  | closed _ _ ih => exact ih
  | document _ _ _ _ _ _ _ ih => exact List.forall_mem_cons.mpr ⟨rfl, ih⟩

/-- **The documents of a stream are composed.** -/
theorem composes_of_documents {first : Bool} {ls : List Lexeme}
    (h : DerivesDocuments (src.units.map Prod.fst) first ls es) :
    ∀ us n ds behind, us.map Prod.fst = ls → documents src n es = .ok (ds, behind) →
      ComposesDocuments src first us ds := by
  induction h with
  | done hls =>
      intro us n ds behind hus hds
      obtain ⟨k, e, rest, -, heq, ⟨-, rfl, -⟩ | ⟨hne, -⟩⟩ := run_of_documents hds
      · exact .done fun u hu => hls u.1 (hus ▸ List.mem_map_of_mem hu)
      · cases heq
        exact absurd rfl hne
  | closed hl more ih =>
      intro us n ds behind hus hds
      obtain ⟨u, us, rfl, rfl, rfl⟩ := List.map_eq_cons_iff.mp hus
      exact .closed hl (ih us n ds behind rfl hds)
  | document opens start node _ closes stop _ more ih =>
      intro us n ds behind hus hds
      obtain ⟨heads, us, rfl, rfl, rfl⟩ := List.map_eq_append_iff.mp hus
      obtain ⟨k, e, rest, -, heq,
        ⟨hend, -, -⟩ | ⟨-, d, behind', ds', body, last', rfl, hrun, hmore⟩⟩ := run_of_documents hds
      · cases heq
        exact absurd hend opens.step_ne
      cases heq
      obtain ⟨mid, us, rfl, hback, hanswers⟩ := composes_of_derives node us rfl
      obtain ⟨closers, back, rfl, rfl, rfl⟩ := List.map_eq_append_iff.mp hback
      obtain ⟨hrest, hnode⟩ := hanswers _ _ _ _ _ hrun.body_eq
      -- behind the body stands the last event of the document
      have hlast := hrun.rest_eq
      rw [hrest] at hlast
      cases hlast
      rw [hrun.node_eq]
      exact .document opens (by simpa using start) hnode (path_of_node hrun.body_eq)
        (fun u hu => closes.content_eq u.1 (List.mem_map_of_mem hu)) stop (ih back k ds' behind rfl hmore)

end Compose

/-! ### Texts that are accepted -/

/-- The units of a text are those of a stream. -/
lemma isStream_unitsOf {s : List Char} {ls : List Lexeme} (h : Lexeme.scan s = .ok ls) :
    IsStream ((unitsOf s ls).map Prod.fst) := by
  rw [map_fst_unitsOf]
  exact isStream_of_cover (cover_of_scan h)

/-- **The tree of a text that is accepted is the set of its documents**, which are composed from the
units behind the start of the stream. -/
theorem exists_composes_of_parse {source : String} {d : Parsed} (h : parse source = .ok d) :
    ∃ ls ds w us, Lexeme.scan source.toList = .ok ls ∧
      d.tokens = Stream.ofTiles (LineTable.ofText source.toList) (tiles source.toList ls) ∧
      d.documents = .documentSetOf ds ∧ IsStream ((unitsOf source.toList ls).map Prod.fst) ∧
      unitsOf source.toList ls = w :: us ∧ w.1.content = .streamStart ∧
      Compose.ComposesDocuments ⟨source.toList, unitsOf source.toList ls⟩ true us ds := by
  obtain ⟨ls, es, rest, hls, hes, hstream, htokens, -⟩ := exists_stages_of_parse h
  obtain ⟨ds, hds, htree⟩ := Compose.stream_eq_ok hstream
  have hL := isStream_unitsOf hls
  have hmap := map_fst_unitsOf source.toList ls
  obtain ⟨l, ks, hks, hl⟩ := (cover_of_scan hls).streamStart
  obtain ⟨w, us, hunits, rfl, -⟩ := List.map_eq_cons_iff.mp (hmap.trans hks)
  rw [← hmap] at hes
  obtain ⟨e, es, rfl, hderives⟩ := derivesDocuments_of_ofLexemes hL hes
  have htail : us.map Prod.fst = ((unitsOf source.toList ls).map Prod.fst).tail := by
    rw [hunits]
    rfl
  exact ⟨ls, ds, w, us, hls, htokens, htree, hL, hunits, hl,
    @Compose.composes_of_documents ⟨source.toList, unitsOf source.toList ls⟩ _ _ _ hderives us _ ds
      rest htail hds⟩

end YamlNavigator
