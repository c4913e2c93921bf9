import YamlNavigator.Proofs.Document.Spanning
import YamlNavigator.Proofs.Yaml.EventOrder

/-!
The spans of the nodes of a tree nest.

* `Node.Holds`, `Nested`: a node spans the nodes below it, which lie one behind the other;
* `Rows`: nested trees between two offsets, one behind the other;
* `Compose.Nests`, `Compose.nests`: what is composed from events in order is nested, and stops where
  the events that are left begin, or before;
* `spans_nested`: the same for the texts that are accepted.
-/

namespace YamlNavigator

open Yaml

/-! ### Nested trees -/

/-- A node spans the nodes below it, and these lie one behind the other. -/
structure Node.Holds (v : Node) : Prop where
  start_le : v.start ≤ v.stop
  within : ∀ c ∈ v.children, v.start ≤ c.start ∧ c.stop ≤ v.stop
  apart : v.children.Pairwise fun c c' => c.stop ≤ c'.start

/-- Every node of the tree holds those below it. -/
def Nested (v : Node) : Prop := ∀ n ∈ v.depthFirst, n.Holds

namespace Nested

variable {v : Node}

/-- The root of a tree is one of its nodes. -/
lemma holds (h : Nested v) : v.Holds := by
  refine h v ?_
  rw [Node.depthFirst_eq]
  exact List.mem_cons_self

/-- A tree is nested if its root holds the trees below, and these are nested. -/
lemma of_children (h : v.Holds) (hchildren : ∀ c ∈ v.children, Nested c) : Nested v := by
  intro n hn
  rw [Node.depthFirst_eq] at hn
  rcases List.mem_cons.mp hn with rfl | hn
  · exact h
  · obtain ⟨c, hc, hn⟩ := List.mem_flatMap.mp hn
    exact hchildren c hc n hn

/-- A nested tree may be moved to other paths. -/
lemma mapPaths (h : Nested v) (f : String → String) : Nested (v.mapPaths f) := by
  intro n hn
  rw [Node.depthFirst_mapPaths] at hn
  obtain ⟨m, hm, rfl⟩ := List.mem_map.mp hn
  obtain ⟨hstart, hwithin, hapart⟩ := h m hm
  refine ⟨by simpa using hstart, ?_, ?_⟩
  · simpa [Node.children_mapPaths] using hwithin
  · simpa [Node.children_mapPaths, List.pairwise_map] using hapart

end Nested

/-- Nested trees between two offsets, one behind the other. -/
inductive Rows : Nat → List Node → Nat → Prop
  | nil {lo hi : Nat} (le : lo ≤ hi) : Rows lo [] hi
  | cons {lo hi : Nat} {v : Node} {vs : List Node} (start_le : lo ≤ v.start) (nested : Nested v)
      (more : Rows v.stop vs hi) : Rows lo (v :: vs) hi

namespace Rows

variable {lo hi : Nat} {v : Node} {vs : List Node}

/-- The trees lie between the two offsets. -/
lemma bounds (h : Rows lo vs hi) : lo ≤ hi ∧ ∀ c ∈ vs, lo ≤ c.start ∧ c.stop ≤ hi := by
  induction h with
  | nil le => exact ⟨le, by simp⟩
  | @cons lo hi v vs start_le nested _ ih =>
      obtain ⟨hle, hvs⟩ := ih
      have hv := nested.holds.start_le
      refine ⟨by omega, fun c hc => ?_⟩
      rcases List.mem_cons.mp hc with rfl | hc
      · exact ⟨start_le, hle⟩
      · have := hvs c hc
        omega

lemma nested (h : Rows lo vs hi) : ∀ c ∈ vs, Nested c := by
  induction h with
  | nil => simp
  | cons _ nested _ ih => exact List.forall_mem_cons.mpr ⟨nested, ih⟩

/-- Each tree stops in front of those behind it. -/
lemma apart (h : Rows lo vs hi) : vs.Pairwise fun c c' => c.stop ≤ c'.start := by
  induction h with
  | nil => exact .nil
  | cons _ _ more ih => exact .cons (fun c hc => (more.bounds.2 c hc).1) ih

/-- A node around trees in its span. -/
lemma nested_parent (h : Rows lo vs hi) (hchildren : v.children = vs) (hlo : v.start ≤ lo)
    (hstop : v.start ≤ v.stop) (hhi : ∀ c ∈ vs, c.stop ≤ v.stop) : Nested v := by
  refine .of_children ⟨hstop, fun c hc => ?_, by rw [hchildren]; exact h.apart⟩
    (by rw [hchildren]; exact h.nested)
  rw [hchildren] at hc
  exact ⟨Nat.le_trans hlo (h.bounds.2 c hc).1, hhi c hc⟩

end Rows

namespace Compose

variable {src : Source} {n lo hi : Nat} {a : Anchors} {path : String} {es : List Event}

/-! ### Composed trees -/

/-- A collection stops behind its children, and where its contents end or before. -/
lemma collectionStop_bounds (flow : Bool) {c : Contents} (h : Rows lo c.nodes c.stop) :
    lo ≤ collectionStop flow c ∧ (∀ v ∈ c.nodes, v.stop ≤ collectionStop flow c) ∧
      collectionStop flow c ≤ c.stop := by
  obtain ⟨hle, hnodes⟩ := h.bounds
  have hstop : ∀ v ∈ c.nodes, v.stop ≤ c.stop := fun v hv => (hnodes v hv).2
  refine ⟨?_, ?_, collectionStop_le hstop (Nat.le_refl _)⟩
  · by_cases hend : flow = true ∨ c.nodes = []
    · rwa [collectionStop, if_pos (by simpa using hend)]
    · simp only [not_or, Bool.not_eq_true] at hend
      obtain ⟨v, hv⟩ := List.exists_mem_of_ne_nil c.nodes hend.2
      rw [hend.1]
      exact Nat.le_trans (Nat.le_trans (hnodes v hv).1 (h.nested v hv).holds.start_le)
        (le_collectionStop hv)
  · cases flow with
    | true => simpa [collectionStop] using hstop
    | false => exact fun v hv => le_collectionStop hv

/-- A collection around its contents. -/
lemma nested_collection {accepts : Content → Bool} {anchor tag : Option String} {flow : Bool}
    {e : Event} {c : Contents} {rest : List Event} {v : Node}
    (hinfo : v.info = nodeInfo src accepts path anchor tag e (collectionStop flow c))
    (hchildren : v.children = c.nodes) (hlo : lo ≤ e.start.index)
    (he : e.start.index ≤ e.stop.index) (h : Rows e.stop.index c.nodes c.stop)
    (hrest : Between c.stop rest hi) : lo ≤ v.start ∧ Nested v ∧ Between v.stop rest hi := by
  have hstart : v.start = e.start.index := by rw [Node.start, hinfo, nodeInfo]
  have hstop : v.stop = collectionStop flow c := by rw [Node.stop, hinfo, nodeInfo]
  obtain ⟨hle, hnodes, hend⟩ := collectionStop_bounds flow h
  refine ⟨by omega, ?_, hrest.mono (by omega)⟩
  exact h.nested_parent hchildren (by omega) (by omega) (by rwa [hstop])

/-- What is composed within a bound from events in order is nested, and the events that are left lie
behind it. -/
structure Nests (src : Source) (n : Nat) : Prop where
  node : ∀ {a path es c lo hi}, node src n a path es = .ok c → Between lo es hi →
    lo ≤ c.value.start ∧ Nested c.value ∧ Between c.value.stop c.rest hi
  items : ∀ {a path index es c lo hi}, items src n a path index es = .ok c → Between lo es hi →
    Rows lo c.value.nodes c.value.stop ∧ Between c.value.stop c.rest hi
  entries : ∀ {a path es c lo hi}, entries src n a path es = .ok c → Between lo es hi →
    Rows lo c.value.nodes c.value.stop ∧ Between c.value.stop c.rest hi

namespace Nests

/-- Nothing is composed in no steps. -/
lemma zero (src : Source) : Nests src 0 := by
  constructor <;> intros <;> rename_i h _ <;> cases h

/-- A node without children has the span of its event. -/
lemma leaf {v : Node} {e : Event} {rest : List Event} (hleaf : v.children = [])
    (hstart : v.start = e.start.index) (hstop : v.stop = e.stop.index)
    (h : Between lo (e :: rest) hi) : lo ≤ v.start ∧ Nested v ∧ Between v.stop rest hi := by
  cases h with
  | cons start_le le more =>
      have hle : v.start ≤ v.stop := by omega
      exact ⟨by omega, (Rows.nil hle).nested_parent hleaf (Nat.le_refl _) hle (by simp),
        by rwa [hstop]⟩

/-- A node is nested, and a collection holds its contents. -/
lemma node_succ {c : Composed Node} (ih : Nests src n)
    (h : Compose.node src (n + 1) a path es = .ok c) (hes : Between lo es hi) :
    lo ≤ c.value.start ∧ Nested c.value ∧ Between c.value.stop c.rest hi := by
  obtain ⟨k, e, rest, hk, rfl, hrun⟩ := run_of_node h
  cases hk
  cases hrun with
  | reference => exact leaf rfl rfl rfl hes
  | scalar => exact leaf rfl rfl rfl hes
  | sequence step hitems =>
      cases hes with
      | cons start_le le more =>
          obtain ⟨hrows, hrest⟩ := ih.items hitems more
          exact nested_collection rfl rfl start_le le hrows hrest
  | mapping step hentries =>
      cases hes with
      | cons start_le le more =>
          obtain ⟨hrows, hrest⟩ := ih.entries hentries more
          exact nested_collection rfl rfl start_le le hrows hrest

/-- Items lie one behind the other. -/
lemma items_succ {index : Nat} {c : Composed Contents} (ih : Nests src n)
    (h : Compose.items src (n + 1) a path index es = .ok c) (hes : Between lo es hi) :
    Rows lo c.value.nodes c.value.stop ∧ Between c.value.stop c.rest hi := by
  obtain ⟨k, e, rest, hk, rfl, hrun⟩ := run_of_items h
  cases hk
  cases hrun with
  | done step =>
      cases hes with
      | cons start_le le more => exact ⟨.nil (Nat.le_trans start_le le), more⟩
  | item step hnode hitems =>
      obtain ⟨hstart, hnested, hmore⟩ := ih.node hnode hes
      obtain ⟨hrows, hrest⟩ := ih.items hitems hmore
      exact ⟨.cons hstart hnested hrows, hrest⟩

/-- Entries lie one behind the other, and in each the value behind the key. -/
lemma entries_succ {c : Composed Contents} (ih : Nests src n)
    (h : Compose.entries src (n + 1) a path es = .ok c) (hes : Between lo es hi) :
    Rows lo c.value.nodes c.value.stop ∧ Between c.value.stop c.rest hi := by
  obtain ⟨k, e, rest, hk, rfl, hrun⟩ := run_of_entries h
  cases hk
  cases hrun with
  | done step =>
      cases hes with
      | cons start_le le more => exact ⟨.nil (Nat.le_trans start_le le), more⟩
  | @entry key value more target step hkey htarget hvalue hentries =>
      obtain ⟨hstart, hnested, hbehind⟩ := ih.node hkey hes
      obtain ⟨hstart', hnested', hbehind'⟩ := ih.node hvalue hbehind
      obtain ⟨hrows, hrest⟩ := ih.entries hentries hbehind'
      have hle := hnested.holds.start_le
      have hle' := hnested'.holds.start_le
      have hstop : (Node.entryOf target (key.value.mapPaths (reroot path target)) value.value).stop =
          value.value.stop := by
        show max (key.value.mapPaths _).stop value.value.stop = _
        rw [Node.stop_mapPaths]
        omega
      have hstart : (Node.entryOf target (key.value.mapPaths (reroot path target))
          value.value).start = key.value.start := Node.start_mapPaths _ _
      have hparts : Rows key.value.start [key.value.mapPaths (reroot path target), value.value]
          value.value.stop :=
        .cons (by simp) (hnested.mapPaths _) (.cons (by simpa using hstart') hnested'
          (.nil (Nat.le_refl _)))
      refine ⟨.cons (by rwa [hstart]) (hparts.nested_parent rfl (by omega) (by omega) ?_)
        (by rwa [hstop]), hrest⟩
      rw [hstop]
      exact fun c hc => (hparts.bounds.2 c hc).2

end Nests

/-- **What is composed from events in order is nested.** -/
theorem nests (src : Source) (n : Nat) : Nests src n := by
  induction n with
  | zero => exact Nests.zero src
  | succ n ih => exact ⟨ih.node_succ, ih.items_succ, ih.entries_succ⟩

/-- The documents of a stream are nested, one behind the other. -/
lemma rows_documents : ∀ {n lo : Nat} {es : List Event} {ds : List Node} {behind : List Event},
    documents src n es = .ok (ds, behind) → Between lo es hi → Rows lo ds hi
  | n, lo, es, ds, behind, h, hes => by
      obtain ⟨k, e, rest, rfl, rfl,
        ⟨-, rfl, -⟩ | ⟨-, d, more, ds', body, last, rfl, hrun, hds⟩⟩ := run_of_documents h
      · exact .nil hes.le
      · cases hes with
        | cons start_le le hbehind =>
            obtain ⟨hstart, hnested, hrest⟩ := (nests src _).node hrun.body_eq hbehind
            rw [hrun.rest_eq] at hrest
            cases hrest with
            | cons start_le' le' hmore =>
                have hle := hnested.holds.start_le
                obtain rfl := hrun.node_eq
                have hbody : Rows body.value.start [body.value] last.start.index :=
                  .cons (Nat.le_refl _) hnested (.nil start_le')
                have hdocument : Nested (.documentOf (some body.value)
                    (documentToken src e last body.value) e.start.index last.stop.index) := by
                  refine hbody.nested_parent rfl ?_ ?_ ?_
                  · show e.start.index ≤ body.value.start
                    omega
                  · show e.start.index ≤ last.stop.index
                    omega
                  · intro c hc
                    obtain rfl := List.mem_singleton.mp hc
                    show body.value.stop ≤ last.stop.index
                    omega
                exact .cons start_le hdocument (rows_documents hds hmore)

end Compose

/-! ### Texts that are accepted -/

/-- The documents of a text that is accepted are nested, one behind the other. -/
lemma exists_rows_of_parse {source : String} {d : Parsed} (h : parse source = .ok d) :
    ∃ ds, d.documents = .documentSetOf ds ∧ Rows 0 ds source.toList.length := by
  obtain ⟨ls, es, rest, hls, hes, hstream, -, -⟩ := exists_stages_of_parse h
  obtain ⟨ds, hds, htree⟩ := Compose.stream_eq_ok hstream
  have hcover := cover_of_scan hls
  exact ⟨ds, htree, Compose.rows_documents hds
    (between_of_ofLexemes (Grammar.isStream_of_cover hcover) hcover.stop_le hes)⟩

/-- **Spans nest.** In the tree of a text that is accepted every node but the set of the documents
lies in the text and spans the nodes below it, and of any two nodes directly below a node the first
one stops where the second one starts, or before. -/
theorem spans_nested {source : String} {d : Parsed} (h : parse source = .ok d) :
    (∀ n ∈ d.documents.depthFirst.tail, n.start ≤ n.stop ∧ n.stop ≤ source.length ∧
      ∀ c ∈ n.children, n.start ≤ c.start ∧ c.stop ≤ n.stop) ∧
    ∀ n ∈ d.documents.depthFirst, n.children.Pairwise fun c c' => c.stop ≤ c'.start := by
  obtain ⟨ls, es, rest, hls, hes, hstream, -, -⟩ := exists_stages_of_parse h
  obtain ⟨ds, hds, htree⟩ := Compose.stream_eq_ok hstream
  have hcover := cover_of_scan hls
  have hrows : Rows 0 ds source.toList.length := Compose.rows_documents hds
    (between_of_ofLexemes (Grammar.isStream_of_cover hcover) hcover.stop_le hes)
  rw [String.length_toList] at hrows
  -- the bound of a document holds for all nodes in it
  have hstop : ∀ v : Node, Nested v → v.stop ≤ source.length →
      ∀ n ∈ v.depthFirst, n.stop ≤ source.length := by
    intro v
    induction v using Node.children_induction with
    | step v ih =>
        intro hv hle n hn
        rw [Node.depthFirst_eq] at hn
        rcases List.mem_cons.mp hn with rfl | hn
        · exact hle
        · obtain ⟨c, hc, hn⟩ := List.mem_flatMap.mp hn
          refine ih c hc (fun m hm => hv m ?_) ?_ n hn
          · exact Node.mem_depthFirst_trans hm v (Node.mem_depthFirst_of_mem_children hc)
          · exact Nat.le_trans (hv.holds.within c hc).2 hle
  rw [htree, Node.depthFirst_eq]
  refine ⟨fun n hn => ?_, fun n hn => ?_⟩
  · obtain ⟨c, hc, hn⟩ := List.mem_flatMap.mp hn
    have hholds := hrows.nested c hc n hn
    exact ⟨hholds.start_le, hstop c (hrows.nested c hc) (hrows.bounds.2 c hc).2 n hn,
      hholds.within⟩
  · rcases List.mem_cons.mp hn with rfl | hn
    · exact hrows.apart
    · obtain ⟨c, hc, hn⟩ := List.mem_flatMap.mp hn
      exact (hrows.nested c hc n hn).apart

/-- An empty key, a pair in a sequence, and a second document. -/
theorem spans_nested_emptyKey :
    ∃ d, parse "?\n: &x [a: , b]\n--- *x\n" = .ok d ∧ d.documents.depthFirst.length = 13 ∧
      (∀ n ∈ d.documents.depthFirst.tail, n.start ≤ n.stop ∧ n.stop ≤ 23 ∧
        ∀ c ∈ n.children, n.start ≤ c.start ∧ c.stop ≤ n.stop) ∧
      ∀ n ∈ d.documents.depthFirst, n.children.Pairwise fun c c' => c.stop ≤ c'.start := by
  obtain ⟨d, hd, hcheck⟩ := Except.exists_ok_of_any (x := parse "?\n: &x [a: , b]\n--- *x\n")
    (p := fun d => d.documents.depthFirst.length == 13) (by decide +kernel)
  have hlength : "?\n: &x [a: , b]\n--- *x\n".length = 23 := by decide +kernel
  obtain ⟨hspan, hapart⟩ := spans_nested hd
  rw [hlength] at hspan
  exact ⟨d, hd, eq_of_beq hcheck, hspan, hapart⟩

end YamlNavigator
