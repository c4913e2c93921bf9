import Mathlib.Data.List.Basic
import YamlNavigator.Document.Compose
import YamlNavigator.Proofs.Outcome

/-!
What composing does, step by step.

* `NodeRun`, `run_of_node`: what a composed node is made from, by its first event;
* `ItemsRun`, `run_of_items`: the same for the items of a sequence;
* `EntriesRun`, `run_of_entries`: the same for the entries of a mapping;
* `DocumentRun`, `run_of_document`, `run_of_documents`: the same for documents;
* `document_of_body`: what a document is made from makes one;
* `Node.children_mapPaths`, `Node.depthFirst_mapPaths`: changing paths keeps the shape of a tree.
-/

namespace YamlNavigator

open Yaml

namespace Compose

variable {src : Source} {n : Nat} {a : Anchors} {path : String} {es : List Event}

/-- What a composed node is made from, by its first event; `k` bounds the nested calls. -/
inductive NodeRun (src : Source) (k : Nat) (a : Anchors) (path : String) (e : Event)
    (rest : List Event) : Composed Node → Prop
  | reference {name : String} (step : e.step = .reference name) :
      NodeRun src k a path e rest
        ⟨.reference (nodeInfo src isReferenceUnit path none none e e.stop.index) (some name), a,
          rest⟩
  | scalar {value : String} {anchor tag : Option String}
      (step : e.step = .scalar value anchor tag) :
      NodeRun src k a path e rest
        ⟨.scalar (nodeInfo src isScalarUnit path anchor tag e e.stop.index) (some value),
          a.define anchor (some value), rest⟩
  | sequence {anchor tag : Option String} {flow : Bool} {c : Composed Contents}
      (step : e.step = .sequenceStart anchor tag flow) (items : items src k a path 0 rest = .ok c) :
      NodeRun src k a path e rest
        ⟨.sequence (nodeInfo src isSequenceUnit path anchor tag e (collectionStop flow c.value))
          c.value.nodes, c.anchors.define anchor none, c.rest⟩
  | mapping {anchor tag : Option String} {flow : Bool} {c : Composed Contents}
      (step : e.step = .mappingStart anchor tag flow)
      (entries : entries src k a path rest = .ok c) :
      NodeRun src k a path e rest
        ⟨.mapping (nodeInfo src isMappingUnit path anchor tag e (collectionStop flow c.value))
          c.value.nodes, c.anchors.define anchor none, c.rest⟩

/-- A composed node is made from its first event and what is behind it. -/
theorem run_of_node {c : Composed Node} (h : node src n a path es = .ok c) :
    ∃ k e rest, n = k + 1 ∧ es = e :: rest ∧ NodeRun src k a path e rest c := by
  cases n with
  | zero => cases h
  | succ k =>
      cases es with
      | nil => cases h
      | cons e rest =>
          refine ⟨k, e, rest, rfl, rfl, ?_⟩
          rw [node] at h
          split at h
          · next name hstep =>
              cases h
              exact .reference hstep
          · next value anchor tag hstep =>
              cases h
              exact .scalar hstep
          · next anchor tag flow hstep =>
              obtain ⟨c, hc, h⟩ := Except.bind_eq_ok_iff.mp h
              cases h
              exact .sequence hstep hc
          · next anchor tag flow hstep =>
              obtain ⟨c, hc, h⟩ := Except.bind_eq_ok_iff.mp h
              cases h
              exact .mapping hstep hc
          · cases h

/-- A node is composed at the path that it is asked for. -/
lemma path_of_node {c : Composed Node} (h : node src n a path es = .ok c) : c.value.path = path := by
  obtain ⟨k, e, rest, -, -, hrun⟩ := run_of_node h
  cases hrun <;> rfl

/-- What the items of a sequence are made from; `k` bounds the nested calls. -/
inductive ItemsRun (src : Source) (k : Nat) (a : Anchors) (path : String) (index : Nat) (e : Event)
    (rest : List Event) : Composed Contents → Prop
  | done (step : e.step = .sequenceEnd) :
      ItemsRun src k a path index e rest ⟨⟨[], e.stop.index⟩, a, rest⟩
  | item {item : Composed Node} {more : Composed Contents} (step : e.step ≠ .sequenceEnd)
      (node : node src k a (itemPath path index) (e :: rest) = .ok item)
      (items : items src k item.anchors path (index + 1) item.rest = .ok more) :
      ItemsRun src k a path index e rest
        ⟨⟨item.value :: more.value.nodes, more.value.stop⟩, more.anchors, more.rest⟩

/-- Composed items are at their end, or a node and further items. -/
theorem run_of_items {index : Nat} {c : Composed Contents}
    (h : items src n a path index es = .ok c) :
    ∃ k e rest, n = k + 1 ∧ es = e :: rest ∧ ItemsRun src k a path index e rest c := by
  cases n with
  | zero => cases h
  | succ k =>
      cases es with
      | nil => cases h
      | cons e rest =>
          refine ⟨k, e, rest, rfl, rfl, ?_⟩
          rw [items] at h
          split at h
          · next hstep =>
              cases h
              exact .done hstep
          · next hstep =>
              obtain ⟨item, hitem, h⟩ := Except.bind_eq_ok_iff.mp h
              obtain ⟨more, hmore, h⟩ := Except.bind_eq_ok_iff.mp h
              cases h
              exact .item hstep hitem hmore

/-- What the entries of a mapping are made from; `k` bounds the nested calls. -/
inductive EntriesRun (src : Source) (k : Nat) (a : Anchors) (path : String) (e : Event)
    (rest : List Event) : Composed Contents → Prop
  | done (step : e.step = .mappingEnd) :
      EntriesRun src k a path e rest ⟨⟨[], e.stop.index⟩, a, rest⟩
  | entry {key value : Composed Node} {more : Composed Contents} {target : String}
      (step : e.step ≠ .mappingEnd) (key_eq : node src k a path (e :: rest) = .ok key)
      (target_eq : target = entryPath path (keySegment src key.anchors key.value))
      (value_eq : node src k key.anchors target key.rest = .ok value)
      (entries : entries src k value.anchors path value.rest = .ok more) :
      EntriesRun src k a path e rest
        ⟨⟨.entryOf target (key.value.mapPaths (reroot path target)) value.value ::
          more.value.nodes, more.value.stop⟩, more.anchors, more.rest⟩

/-- Composed entries are at their end, or a key, its value and further entries. -/
theorem run_of_entries {c : Composed Contents} (h : entries src n a path es = .ok c) :
    ∃ k e rest, n = k + 1 ∧ es = e :: rest ∧ EntriesRun src k a path e rest c := by
  cases n with
  | zero => cases h
  | succ k =>
      cases es with
      | nil => cases h
      | cons e rest =>
          refine ⟨k, e, rest, rfl, rfl, ?_⟩
          rw [entries] at h
          split at h
          · next hstep =>
              cases h
              exact .done hstep
          · next hstep =>
              obtain ⟨key, hkey, h⟩ := Except.bind_eq_ok_iff.mp h
              obtain ⟨value, hvalue, h⟩ := Except.bind_eq_ok_iff.mp h
              obtain ⟨more, hmore, h⟩ := Except.bind_eq_ok_iff.mp h
              cases h
              exact .entry hstep hkey rfl hvalue hmore

/-! ### Documents -/

/-- The token that defines a document: that of its marker, or else that of its body. -/
def documentToken (src : Source) (first last : Event) (body : Node) : Option Token :=
  if first.step = .documentStart true then
    src.definingToken? isDocumentUnit first.start.index last.stop.index
  else body.token

/-- What a composed document is made from: its body, between its first and its last event. -/
structure DocumentRun (src : Source) (first : Event) (rest : List Event) (d : Node)
    (behind : List Event) (body : Composed Node) (last : Event) : Prop where
  body_eq : node src (bound rest) [] rootPath rest = .ok body
  rest_eq : body.rest = last :: behind
  node_eq : d = .documentOf (some body.value) (documentToken src first last body.value)
    first.start.index last.stop.index

/-- A composed document is made from a body. -/
lemma run_of_document {first : Event} {d : Node} {behind : List Event}
    (h : document src first es = .ok (d, behind)) :
    ∃ body last, DocumentRun src first es d behind body last := by
  rw [document] at h
  obtain ⟨body, hbody, h⟩ := Except.bind_eq_ok_iff.mp h
  split at h
  · cases h
  · next last rest hrest =>
      cases h
      exact ⟨body, last, hbody, hrest, rfl⟩

/-- A body with an event behind it makes a document. -/
lemma document_of_body {first last : Event} {behind : List Event} {body : Composed Node}
    (h : node src (bound es) [] rootPath es = .ok body) (hrest : body.rest = last :: behind) :
    document src first es = .ok (.documentOf (some body.value)
      (documentToken src first last body.value) first.start.index last.stop.index, behind) := by
  refine Except.bind_eq_ok_iff.mpr ⟨body, h, ?_⟩
  simp only [hrest]
  rfl

/-- Composed documents are at the end of the stream, or a document and further ones. -/
lemma run_of_documents {ds : List Node} {behind : List Event}
    (h : documents src n es = .ok (ds, behind)) :
    ∃ k e rest, n = k + 1 ∧ es = e :: rest ∧
      ((e.step = .streamEnd ∧ ds = [] ∧ behind = rest) ∨
        (e.step ≠ .streamEnd ∧ ∃ d more ds' body last, ds = d :: ds' ∧
          DocumentRun src e rest d more body last ∧ documents src k more = .ok (ds', behind))) := by
  cases n with
  | zero => cases h
  | succ k =>
      cases es with
      | nil => cases h
      | cons e rest =>
          refine ⟨k, e, rest, rfl, rfl, ?_⟩
          rw [documents] at h
          split at h
          · next hstep =>
              cases h
              exact .inl ⟨hstep, rfl, rfl⟩
          · next hstep =>
              obtain ⟨⟨d, more⟩, hd, h⟩ := Except.bind_eq_ok_iff.mp h
              obtain ⟨⟨ds', behind'⟩, hds, h⟩ := Except.bind_eq_ok_iff.mp h
              cases h
              obtain ⟨body, last, hrun⟩ := run_of_document hd
              exact .inr ⟨hstep, d, more, ds', body, last, rfl, hrun, hds⟩

/-- Every composed document has a composed body. -/
lemma exists_body_of_mem_documents : ∀ {n : Nat} {es : List Event} {ds : List Node}
    {behind : List Event}, documents src n es = .ok (ds, behind) → ∀ d ∈ ds,
      ∃ first rest more body last, DocumentRun src first rest d more body last
  | n, es, ds, behind, h, d, hd => by
      obtain ⟨k, e, rest, rfl, rfl, ⟨-, rfl, -⟩ | ⟨-, d', more, ds', body, last, rfl, hrun, hds⟩⟩ :=
        run_of_documents h
      · cases hd
      · rcases List.mem_cons.mp hd with rfl | hd
        · exact ⟨e, rest, more, body, last, hrun⟩
        · exact exists_body_of_mem_documents hds d hd

/-- The tree of a stream is the set of its documents. -/
lemma stream_eq_ok {tree : Node} {behind : List Event} (h : stream src es = .ok (tree, behind)) :
    ∃ ds, documents src (bound es) es.tail = .ok (ds, behind) ∧ tree = .documentSetOf ds := by
  rw [stream] at h
  obtain ⟨⟨ds, rest⟩, hds, h⟩ := Except.bind_eq_ok_iff.mp h
  cases h
  exact ⟨ds, hds, rfl⟩

end Compose

/-! ### Changing paths -/

namespace Node

variable (f : String → String)

/-- The trees of a list are changed one by one. -/
lemma mapPathsAll_eq_map : ∀ ns : List Node, mapPathsAll f ns = ns.map (mapPaths f)
  | [] => rfl
  | n :: ns => by rw [mapPathsAll, mapPathsAll_eq_map ns, List.map_cons]

/-- The nodes below a changed node are the changed nodes below it. -/
lemma children_mapPaths (n : Node) : (n.mapPaths f).children = n.children.map (mapPaths f) := by
  cases n with
  | documentSet i ds => exact mapPathsAll_eq_map f ds
  | document i b => cases b <;> rfl
  | mapping i es => exact mapPathsAll_eq_map f es
  | mappingEntry i k v => cases k <;> cases v <;> rfl
  | sequence i xs => exact mapPathsAll_eq_map f xs
  | scalar i v => rfl
  | reference i v => rfl

/-- A changed node carries what it carried, at another path. -/
lemma info_mapPaths (n : Node) : (n.mapPaths f).info = { n.info with path := f n.info.path } := by
  cases n <;> rfl

/-- A changed tree has the changed nodes in the same order. -/
lemma depthFirst_mapPaths (n : Node) :
    (n.mapPaths f).depthFirst = n.depthFirst.map (mapPaths f) := by
  induction n using children_induction with
  | step n ih =>
      rw [depthFirst_eq, depthFirst_eq, children_mapPaths, List.map_cons, List.flatMap_map,
        List.map_flatMap]
      congr 1
      exact List.flatMap_congr ih

end Node

end YamlNavigator
