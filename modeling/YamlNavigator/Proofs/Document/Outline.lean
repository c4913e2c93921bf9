import Mathlib.Algebra.BigOperators.Group.List.Basic
import YamlNavigator.Proofs.Document.Totality

/-!
A tree tells the events that it was composed from.

* `Bracket`, `Step.bracket`: what an event contributes to a tree;
* `Node.outline`: a tree as brackets around its nodes, in the order of `Node.children`;
* `DescribesNode`, `DescribesDocument`, `DescribesStream`: the lists of events that a stream is
  announced by, whatever their marks, anchors and values are;
* `Compose.Outlined`, `Compose.outlined`: what is composed takes the events of its outline;
* `outline_stream`: the events of a stream are composed, all of them, and the outline of the tree
  is these events.
-/

namespace YamlNavigator

open Yaml

/-! ### Outlines -/

/-- What an event contributes to a tree: brackets around collections, documents and the stream, and
between them scalars and aliases. -/
inductive Bracket where
  | streamStart
  | streamEnd
  | documentStart
  | documentEnd
  | reference (name : Option String)
  | scalar (value anchor : Option String)
  | sequenceStart (anchor : Option String)
  | sequenceEnd
  | mappingStart (anchor : Option String)
  | mappingEnd
  deriving DecidableEq, Repr

/-- What a step contributes to a tree. Tags, markers and the way in which a collection is written
are left to the tokens. -/
def Yaml.Step.bracket : Step → Bracket
  | .streamStart => .streamStart
  | .streamEnd => .streamEnd
  | .documentStart _ => .documentStart
  | .documentEnd _ => .documentEnd
  | .reference name => .reference (some name)
  | .scalar value anchor _ => .scalar (some value) anchor
  | .sequenceStart anchor _ _ => .sequenceStart anchor
  | .sequenceEnd => .sequenceEnd
  | .mappingStart anchor _ _ => .mappingStart anchor
  | .mappingEnd => .mappingEnd

/-- What events contribute to a tree. -/
def bracketsOf (es : List Event) : List Bracket := es.map fun e => e.step.bracket

/-- The first event contributes the first bracket. -/
lemma bracketsOf_cons (e : Event) (es : List Event) :
    bracketsOf (e :: es) = e.step.bracket :: bracketsOf es :=
  rfl

/-- Events contribute one after the other. -/
lemma bracketsOf_append (es es' : List Event) :
    bracketsOf (es ++ es') = bracketsOf es ++ bracketsOf es' :=
  List.map_append

namespace Node

/-- What stands in front of the nodes below a node. -/
def opening : Node → List Bracket
  | documentSet _ _ => [.streamStart]
  | document _ _ => [.documentStart]
  | mapping info _ => [.mappingStart info.anchor]
  | mappingEntry _ _ _ => []
  | sequence info _ => [.sequenceStart info.anchor]
  | scalar info value => [.scalar value info.anchor]
  | reference _ name => [.reference name]

/-- What stands behind the nodes below a node. -/
def closing : Node → List Bracket
  | documentSet _ _ => [.streamEnd]
  | document _ _ => [.documentEnd]
  | mapping _ _ => [.mappingEnd]
  | sequence _ _ => [.sequenceEnd]
  | mappingEntry _ _ _ | scalar _ _ | reference _ _ => []

/-- A tree as brackets around its nodes. -/
def outline (n : Node) : List Bracket :=
  n.opening ++ (n.children.attach.flatMap fun c =>
    have := sizeOf_lt_of_mem_children c.2
    outline c.1) ++ n.closing
  termination_by sizeOf n

/-- A tree is outlined by its root around the trees below it. -/
lemma outline_eq (n : Node) : n.outline = n.opening ++ n.children.flatMap outline ++ n.closing := by
  rw [outline]
  conv => rhs; rw [← List.attach_map_subtype_val n.children, List.flatMap_map]

/-- A tree at other paths has the same outline. -/
lemma outline_mapPaths (f : String → String) (n : Node) : (n.mapPaths f).outline = n.outline := by
  induction n using children_induction with
  | step n ih =>
      have hopening : (n.mapPaths f).opening = n.opening := by cases n <;> rfl
      have hclosing : (n.mapPaths f).closing = n.closing := by cases n <;> rfl
      rw [outline_eq, outline_eq, hopening, hclosing, children_mapPaths, List.flatMap_map]
      exact congrArg (n.opening ++ · ++ n.closing) (List.flatMap_congr ih)

/-- An entry is outlined by its key and its value. -/
lemma outline_entryOf (path : String) (k v : Node) :
    (entryOf path k v).outline = k.outline ++ v.outline := by
  rw [outline_eq]
  simp [entryOf, opening, closing, children]

end Node

/-! ### The events of a stream -/

/-- The events of a node: an alias, a scalar, a sequence of nodes, or a mapping of pairs of
nodes. -/
inductive DescribesNode : List Event → Prop
  | reference {e : Event} {name : String} (step : e.step = .reference name) : DescribesNode [e]
  | scalar {e : Event} {value : String} {anchor tag : Option String}
      (step : e.step = .scalar value anchor tag) : DescribesNode [e]
  | sequence {first last : Event} {anchor tag : Option String} {flow : Bool}
      (items : List (List Event)) (start : first.step = .sequenceStart anchor tag flow)
      (nodes : ∀ es ∈ items, DescribesNode es) (stop : last.step = .sequenceEnd) :
      DescribesNode (first :: (items.flatten ++ [last]))
  | mapping {first last : Event} {anchor tag : Option String} {flow : Bool}
      (entries : List (List Event × List Event))
      (start : first.step = .mappingStart anchor tag flow)
      (keys : ∀ p ∈ entries, DescribesNode p.1) (values : ∀ p ∈ entries, DescribesNode p.2)
      (stop : last.step = .mappingEnd) :
      DescribesNode (first :: ((entries.flatMap fun p => p.1 ++ p.2) ++ [last]))

/-- The events of a document: those of its body between its first and its last event. -/
inductive DescribesDocument : List Event → Prop
  | document {first last : Event} {body : List Event} {marked marked' : Bool}
      (start : first.step = .documentStart marked) (node : DescribesNode body)
      (stop : last.step = .documentEnd marked') : DescribesDocument (first :: (body ++ [last]))

/-- The events of a stream: those of its documents between its first and its last event. -/
inductive DescribesStream : List Event → Prop
  | stream {first last : Event} (documents : List (List Event)) (start : first.step = .streamStart)
      (all : ∀ es ∈ documents, DescribesDocument es) (stop : last.step = .streamEnd) :
      DescribesStream (first :: (documents.flatten ++ [last]))

namespace Compose

variable {src : Source} {n : Nat} {a : Anchors} {path : String} {es : List Event}

/-! ### Events that are taken -/

/-- What is composed within a bound takes events from the front: those of the outline of a node, or
those of the outlines of the contents of a collection and its end. -/
structure Outlined (src : Source) (n : Nat) : Prop where
  node : ∀ {a path es c}, node src n a path es = .ok c →
    ∃ taken, es = taken ++ c.rest ∧ c.value.outline = bracketsOf taken
  items : ∀ {a path index es c}, items src n a path index es = .ok c →
    ∃ taken, es = taken ++ c.rest ∧
      c.value.nodes.flatMap Node.outline ++ [.sequenceEnd] = bracketsOf taken
  entries : ∀ {a path es c}, entries src n a path es = .ok c →
    ∃ taken, es = taken ++ c.rest ∧
      c.value.nodes.flatMap Node.outline ++ [.mappingEnd] = bracketsOf taken

namespace Outlined

/-- Nothing is composed in no steps. -/
lemma zero (src : Source) : Outlined src 0 := by
  constructor <;> intros <;> rename_i h <;> cases h

/-- A node takes its first event, and a collection its contents. -/
lemma node_succ {c : Composed Node} (ih : Outlined src n)
    (h : Compose.node src (n + 1) a path es = .ok c) :
    ∃ taken, es = taken ++ c.rest ∧ c.value.outline = bracketsOf taken := by
  obtain ⟨k, e, rest, hk, rfl, hrun⟩ := run_of_node h
  cases hk
  cases hrun with
  | reference step =>
      refine ⟨[e], rfl, ?_⟩
      rw [bracketsOf_cons, step, Node.outline_eq]
      rfl
  | scalar step =>
      refine ⟨[e], rfl, ?_⟩
      rw [bracketsOf_cons, step, Node.outline_eq]
      rfl
  | sequence step hitems =>
      obtain ⟨taken, rfl, houtline⟩ := ih.items hitems
      refine ⟨e :: taken, rfl, ?_⟩
      rw [bracketsOf_cons, step, ← houtline, Node.outline_eq]
      rfl
  | mapping step hentries =>
      obtain ⟨taken, rfl, houtline⟩ := ih.entries hentries
      refine ⟨e :: taken, rfl, ?_⟩
      rw [bracketsOf_cons, step, ← houtline, Node.outline_eq]
      rfl

/-- Items take the events of a node each, and the end of the sequence. -/
lemma items_succ {index : Nat} {c : Composed Contents} (ih : Outlined src n)
    (h : Compose.items src (n + 1) a path index es = .ok c) :
    ∃ taken, es = taken ++ c.rest ∧
      c.value.nodes.flatMap Node.outline ++ [.sequenceEnd] = bracketsOf taken := by
  obtain ⟨k, e, rest, hk, rfl, hrun⟩ := run_of_items h
  cases hk
  cases hrun with
  | done step => exact ⟨[e], rfl, by rw [bracketsOf_cons, step]; rfl⟩
  | @item item more step hnode hitems =>
      obtain ⟨taken, htaken, houtline⟩ := ih.node hnode
      obtain ⟨taken', htaken', houtline'⟩ := ih.items hitems
      refine ⟨taken ++ taken', by rw [htaken, htaken', List.append_assoc], ?_⟩
      rw [List.flatMap_cons, List.append_assoc, houtline, houtline', bracketsOf_append]

/-- Entries take the events of a key and a value each, and the end of the mapping. -/
lemma entries_succ {c : Composed Contents} (ih : Outlined src n)
    (h : Compose.entries src (n + 1) a path es = .ok c) :
    ∃ taken, es = taken ++ c.rest ∧
      c.value.nodes.flatMap Node.outline ++ [.mappingEnd] = bracketsOf taken := by
  obtain ⟨k, e, rest, hk, rfl, hrun⟩ := run_of_entries h
  cases hk
  cases hrun with
  | done step => exact ⟨[e], rfl, by rw [bracketsOf_cons, step]; rfl⟩
  | @entry key value more target step hkey htarget hvalue hentries =>
      obtain ⟨taken, htaken, houtline⟩ := ih.node hkey
      obtain ⟨taken', htaken', houtline'⟩ := ih.node hvalue
      obtain ⟨taken'', htaken'', houtline''⟩ := ih.entries hentries
      refine ⟨taken ++ (taken' ++ taken''), ?_, ?_⟩
      · rw [htaken, htaken', htaken'', List.append_assoc, List.append_assoc]
      · rw [List.flatMap_cons, List.append_assoc, houtline'', Node.outline_entryOf,
          Node.outline_mapPaths, houtline, houtline', List.append_assoc, bracketsOf_append,
          bracketsOf_append]

end Outlined

/-- **What is composed takes the events of its outline.** -/
theorem outlined (src : Source) (n : Nat) : Outlined src n := by
  induction n with
  | zero => exact Outlined.zero src
  | succ n ih => exact ⟨ih.node_succ, ih.items_succ, ih.entries_succ⟩

/-! ### Events that describe a tree -/

/-- The items of a sequence and its end. -/
lemma completes_items {last : Event} (stop : last.step = .sequenceEnd) (flow : Bool)
    {items : List (List Event)} (h : ∀ es ∈ items, Completes src .node es) :
    Completes src (.items flow) (items.flatten ++ [last]) := by
  induction items with
  | nil =>
      obtain ⟨step, begins, ends⟩ := last
      cases stop
      exact completes_itemsEnd
  | cons es items ih =>
      obtain ⟨hitem, hitems⟩ := List.forall_mem_cons.mp h
      rw [List.flatten_cons, List.append_assoc]
      exact completes_item hitem (ih hitems)

/-- The entries of a mapping and its end. -/
lemma completes_entries {last : Event} (stop : last.step = .mappingEnd) (flow : Bool)
    {entries : List (List Event × List Event)}
    (h : ∀ p ∈ entries, Completes src .node p.1 ∧ Completes src .node p.2) :
    Completes src (.entries flow) ((entries.flatMap fun p => p.1 ++ p.2) ++ [last]) := by
  induction entries with
  | nil =>
      obtain ⟨step, begins, ends⟩ := last
      cases stop
      exact completes_entriesEnd
  | cons p entries ih =>
      obtain ⟨⟨hkey, hvalue⟩, hentries⟩ := List.forall_mem_cons.mp h
      rw [List.flatMap_cons, List.append_assoc, List.append_assoc]
      exact completes_entry hkey hvalue (ih hentries)

/-- The events of a node are composed. -/
theorem completes_of_describes (src : Source) (h : DescribesNode es) : Completes src .node es := by
  induction h with
  | reference step => exact completes_single (.inl ⟨_, step⟩)
  | scalar step => exact completes_single (.inr ⟨_, _, _, step⟩)
  | @sequence first last anchor tag flow items start nodes stop ih =>
      exact completes_sequence start (completes_items stop flow ih)
  | @mapping first last anchor tag flow entries start keys values stop ihkeys ihvalues =>
      exact completes_mapping start
        (completes_entries stop flow fun p hp => ⟨ihkeys p hp, ihvalues p hp⟩)

/-- The events of a document are composed, whatever stands behind them, and outline it. -/
lemma exists_document_of_describes (src : Source) (h : DescribesDocument es) (behind : List Event) :
    ∃ first rest d, es ++ behind = first :: rest ∧ first.step ≠ .streamEnd ∧
      document src first rest = .ok (d, behind) ∧ d.outline = bracketsOf es := by
  obtain @⟨first, last, body, marked, marked', start, hnode, stop⟩ := h
  obtain ⟨c, hc, hrest⟩ := (completes_of_describes src hnode).2.2
    (bound (body ++ last :: behind)) [] rootPath (last :: behind) (by simp [bound]; omega)
  obtain ⟨taken, htaken, houtline⟩ := (outlined src _).node hc
  rw [hrest] at htaken
  obtain rfl : body = taken := List.append_cancel_right htaken
  refine ⟨first, body ++ last :: behind, _, by simp, by simp [start], document_of_body hc hrest, ?_⟩
  rw [Node.outline_eq, bracketsOf_cons, bracketsOf_append, bracketsOf_cons, start, stop, ← houtline]
  simp [Node.documentOf, Node.opening, Node.closing, Node.children, Step.bracket, bracketsOf]

/-- The events of documents and of the end of the stream are composed, and outline the documents. -/
lemma exists_documents_of_describes (src : Source) {last : Event} (stop : last.step = .streamEnd)
    {ess : List (List Event)} {n : Nat} (h : ∀ es ∈ ess, DescribesDocument es)
    (hn : ess.length < n) :
    ∃ ds, documents src n (ess.flatten ++ [last]) = .ok (ds, []) ∧
      ds.flatMap Node.outline = bracketsOf ess.flatten := by
  induction ess generalizing n with
  | nil =>
      obtain ⟨n, rfl⟩ := Nat.exists_eq_add_one_of_ne_zero (Nat.ne_zero_of_lt hn)
      exact ⟨[], by rw [List.flatten_nil, List.nil_append, documents, if_pos stop], rfl⟩
  | cons es ess ih =>
      obtain ⟨n, rfl⟩ := Nat.exists_eq_add_one_of_ne_zero (Nat.ne_zero_of_lt hn)
      obtain ⟨hes, hess⟩ := List.forall_mem_cons.mp h
      obtain ⟨ds, hds, houtlines⟩ := ih hess (Nat.lt_of_succ_lt_succ hn)
      obtain ⟨first, rest, d, heq, hfirst, hd, houtline⟩ :=
        exists_document_of_describes src hes (ess.flatten ++ [last])
      refine ⟨d :: ds, ?_, ?_⟩
      · rw [List.flatten_cons, List.append_assoc, heq, documents, if_neg hfirst]
        exact Except.bind_eq_ok_iff.mpr ⟨(d, _), hd, Except.bind_eq_ok_iff.mpr ⟨(ds, []), hds, rfl⟩⟩
      · rw [List.flatMap_cons, houtline, houtlines, List.flatten_cons, bracketsOf_append]

end Compose

/-- **The composer loses nothing.** All events of a stream are composed, whatever their marks,
anchors and values are, and the outline of the tree is these events. -/
theorem outline_stream (src : Source) {es : List Event} (h : DescribesStream es) :
    ∃ tree, Compose.stream src es = .ok (tree, []) ∧ tree.outline = bracketsOf es := by
  obtain @⟨first, last, documents, start, all, stop⟩ := h
  have hbound : documents.length < Compose.bound (first :: (documents.flatten ++ [last])) := by
    have hpos : ∀ k ∈ documents.map List.length, 1 ≤ k := by
      intro k hk
      obtain ⟨es, hes, rfl⟩ := List.mem_map.mp hk
      cases all es hes
      exact Nat.succ_pos _
    have hlength : documents.length ≤ documents.flatten.length :=
      calc documents.length
          = (documents.map List.length).length := (List.length_map _).symm
        _ ≤ (documents.map List.length).sum := List.length_le_sum_of_one_le _ hpos
        _ = documents.flatten.length := List.length_flatten.symm
    rw [Compose.bound, List.length_cons, List.length_append]
    omega
  obtain ⟨ds, hds, houtlines⟩ := Compose.exists_documents_of_describes src stop all hbound
  refine ⟨.documentSetOf ds, ?_, ?_⟩
  · rw [Compose.stream, List.tail_cons, hds]
    rfl
  · rw [Node.outline_eq, bracketsOf_cons, bracketsOf_append, bracketsOf_cons, start, stop,
      ← houtlines]
    rfl

/-- A mapping with a mapping for a key, which has a sequence for a key, and a second document. -/
theorem outline_stream_nestedKeys :
    let event (step : Step) : Event := ⟨step, Mark.start, Mark.start⟩
    let key := [event (.sequenceStart none none true), event (.scalar "a" (some "x") none),
      event .sequenceEnd]
    let nested := event (.mappingStart none (some "!t") true) ::
      (key ++ [event (.reference "x"), event .mappingEnd])
    let es := [event .streamStart, event (.documentStart true),
      event (.mappingStart (some "y") none false)] ++ nested ++
      [event (.scalar "b" none none), event .mappingEnd, event (.documentEnd false),
        event (.documentStart true), event (.scalar "" none none), event (.documentEnd false),
        event .streamEnd]
    DescribesStream es ∧ ∃ tree, Compose.stream ⟨"{[&x a]: *x}: b".toList, []⟩ es = .ok (tree, []) ∧
      tree.outline = bracketsOf es := by
  intro event key nested es
  have hscalar (value : String) (anchor : Option String) :
      DescribesNode [event (.scalar value anchor none)] := .scalar rfl
  have hkey : DescribesNode key :=
    .sequence [[event (.scalar "a" (some "x") none)]] rfl
      (List.forall_mem_singleton.mpr (hscalar "a" (some "x"))) rfl
  have hnested : DescribesNode nested :=
    .mapping [(key, [event (.reference "x")])] rfl
      (List.forall_mem_singleton.mpr hkey) (List.forall_mem_singleton.mpr (.reference rfl)) rfl
  have hbody : DescribesNode (event (.mappingStart (some "y") none false) ::
      (nested ++ [event (.scalar "b" none none), event .mappingEnd])) :=
    .mapping [(nested, [event (.scalar "b" none none)])] rfl
      (List.forall_mem_singleton.mpr hnested) (List.forall_mem_singleton.mpr (hscalar "b" none)) rfl
  have hes : DescribesStream es :=
    .stream [_, _] rfl (List.forall_mem_cons.mpr
      ⟨.document rfl hbody rfl, List.forall_mem_singleton.mpr
        (.document rfl (hscalar "" none) rfl)⟩) rfl
  exact ⟨hes, outline_stream _ hes⟩

end YamlNavigator
