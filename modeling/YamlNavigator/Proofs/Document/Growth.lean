import YamlNavigator.Proofs.Document.Weaving

/-!
Forests that grow from units.

* `NodeKind.accepts`, `LeadsNode`: the units that can define a node of a kind, and those that lead
  to nodes;
* `DefinedBy`, `Unwritten`, `PairAt`: how a node stands in front of or behind its units: it has a
  unit of its own behind its properties, it is a scalar of which nothing but properties is written,
  or it is a pair of a flow sequence;
* `IsWhole`, `IsEntry`: a node that is no pair, and an entry of a mapping with its key and its
  value;
* `Grown`: a forest whose trees stand one behind the other on the units between them, each above the
  forest of its children;
* `Grown.append`, `Grown.mapPaths`: forests may be joined, and moved to other paths;
* `Rooted`, `Grown.rooted`: how the nodes of a forest have grown from the units of the text;
* `DefinedBy.token_or`: a node shows its unit, or one without text at its start;
* `Compose.grown_of_composes`: what a section of the grammar is composed to has grown from the units
  that the section takes, by induction;
* `exists_grown_of_parse`: the bodies of the documents of a text have grown from its units.
-/

namespace YamlNavigator

open Yaml Grammar

/-! ### Nodes and their units -/

/-- The units that can define a node of a kind. -/
def NodeKind.accepts : NodeKind → Content → Bool
  | .mapping => isMappingUnit
  | .sequence => isSequenceUnit
  | .reference => isReferenceUnit
  | .scalar => isScalarUnit
  | .documentSet | .document | .mappingEntry => fun _ => false

/-- The units that lead to nodes: marks of keys and values, hyphens, the brackets and commas of flow
collections, the marker of a document, and the start of the stream. -/
def leadsNode : Content → Bool
  | .key | .value | .blockEntry | .flowSequenceStart | .flowMappingStart | .flowEntry
  | .documentStart | .streamStart => true
  | _ => false

/-- Units that lead to items or keys lead to nodes. -/
lemma leadsNode_of_leads {flow : Bool} {c : Content}
    (h : leadsItem flow c = true ∨ leadsKey flow c = true) : leadsNode c = true := by
  revert h
  cases c <;> simp [leadsItem, leadsKey, leadsNode]

/-- The last of the units leads to a node. -/
def LeadsNode (pre : List (Lexeme × Token)) : Prop :=
  ∃ front lead, pre = front ++ [lead] ∧ leadsNode lead.1.content = true

/-- The unit spells the node: the node is a scalar with its text, or an alias with its name, and
stops with it. -/
def Spells (u : Lexeme × Token) (v : Node) : Prop :=
  v.stop = u.1.stop.index ∧
    ((∃ info text style, v = .scalar info (some text) ∧ u.1.content = .scalar text style) ∨
      ∃ info name, v = .reference info (some name) ∧ u.1.content = .reference name)

/-- A node behind the units `pre` that has the unit `u` behind its properties `ps`. The last unit in
front of it leads to it. It starts with the first of its own, and its token was looked up from
there. With an anchor among its properties it has one. -/
structure DefinedBy (src : Source) (pre ps : List (Lexeme × Token)) (u : Lexeme × Token)
    (back : List (Lexeme × Token)) (v : Node) : Prop where
  units : src.units = pre ++ (ps ++ u :: back)
  lead : LeadsNode pre
  start_eq : v.start = (front ((ps ++ u :: back).map Prod.fst)).start.index
  accepted : v.kind.accepts u.1.content = true
  bears : Bears src pre ps (u :: back) v
  isAnchored : ∀ p ∈ ps, ∀ name, p.1.content = .anchor name → v.info.anchor.isSome = true
  looked : ∃ limit, u.1.stop.index ≤ limit ∧
    v.token = src.definingToken? v.kind.accepts v.start limit
  shape : Spells u v ∨ v.kind = .mapping ∨ v.kind = .sequence

/-- A scalar behind the units `pre` of which only the properties `ps` are written. -/
structure Unwritten (src : Source) (pre ps back : List (Lexeme × Token)) (v : Node) : Prop where
  units : src.units = pre ++ (ps ++ back)
  eq : ∃ info, v = .scalar info (some "")
  before : ∀ w ∈ pre, w.1.stop.index ≤ v.start
  behind : ∀ w ∈ ps ++ back, v.start ≤ w.1.start.index
  start_le : v.start ≤ v.stop
  stop_le : ∀ w ∈ back, v.stop ≤ w.1.start.index
  isProperty : ∀ w ∈ ps, w.1.isProperty = true
  bears : Bears src pre ps back v
  token : v.token = src.definingToken? isScalarUnit v.start v.stop

/-- A pair of a flow sequence: a mapping that starts with the mark of its key, directly behind the
bracket or the comma that leads to it. -/
structure PairAt (src : Source) (pre : List (Lexeme × Token)) (key : Lexeme × Token)
    (back : List (Lexeme × Token)) (v : Node) : Prop where
  units : src.units = pre ++ key :: back
  lead : ∃ front lead, pre = front ++ [lead] ∧ leadsItem true lead.1.content = true
  content : key.1.content = .key
  kind : v.kind = .mapping
  start_eq : v.start = key.1.start.index
  properties : v.info.properties = []
  token : v.token = src.definingToken? isMappingUnit v.start key.1.stop.index

/-- The node has a unit of its own, or it is not written: it is no pair. -/
def IsWhole (src : Source) (v : Node) : Prop :=
  (∃ pre ps u back, DefinedBy src pre ps u back v) ∨ ∃ pre ps back, Unwritten src pre ps back v

/-- An entry of a mapping with its key and its value, which are no pairs. It shows the token of the
key and starts with it. -/
def IsEntry (src : Source) (v key value : Node) : Prop :=
  ∃ info, v = .mappingEntry info (some key) (some value) ∧ info.token = key.token ∧
    info.start = key.start ∧ info.properties = [] ∧ IsWhole src key ∧ IsWhole src value

/-- The trees `vs` have grown from the units `mid` behind the units `pre`: in their order, each from
its properties, the unit that defines it and the units of its children. Structure may stand in front
of every tree and behind the last one. -/
inductive Grown (src : Source) :
    List (Lexeme × Token) → List (Lexeme × Token) → List Node → Prop
  | nil {pre : List (Lexeme × Token)} : Grown src pre [] []
  | skip {pre mid : List (Lexeme × Token)} {u : Lexeme × Token} {vs : List Node}
      (h : u.1.content.isOwned = false) (more : Grown src (pre ++ [u]) mid vs) :
      Grown src pre (u :: mid) vs
  | unwritten {pre ps back mid : List (Lexeme × Token)} {v : Node} {vs : List Node}
      (h : Unwritten src pre ps back v) (more : Grown src (pre ++ ps) mid vs) :
      Grown src pre (ps ++ mid) (v :: vs)
  | defined {pre ps back mid mid' : List (Lexeme × Token)} {u : Lexeme × Token} {v : Node}
      {vs : List Node} (h : DefinedBy src pre ps u back v)
      (children : Grown src (pre ++ ps ++ [u]) mid v.children)
      (more : Grown src (pre ++ (ps ++ u :: mid)) mid' vs) :
      Grown src pre (ps ++ u :: mid ++ mid') (v :: vs)
  | pair {pre back mid mid' : List (Lexeme × Token)} {key : Lexeme × Token} {v : Node}
      {vs : List Node} (h : PairAt src pre key back v)
      (children : Grown src (pre ++ [key]) mid v.children)
      (more : Grown src (pre ++ key :: mid) mid' vs) : Grown src pre (key :: mid ++ mid') (v :: vs)
  | entry {pre mid mid' : List (Lexeme × Token)} {v key value : Node} {vs : List Node}
      (h : IsEntry src v key value) (parts : Grown src pre mid [key, value])
      (more : Grown src (pre ++ mid) mid' vs) : Grown src pre (mid ++ mid') (v :: vs)

/-! ### Entries -/

namespace IsEntry

variable {src : Source} {v key value : Node} {t : Token}

lemma children_eq (h : IsEntry src v key value) : v.children = [key, value] := by
  obtain ⟨info, rfl, -⟩ := h
  rfl

/-- The key and the value of an entry are no pairs. -/
lemma isWhole (h : IsEntry src v key value) : ∀ c ∈ v.children, IsWhole src c := by
  rw [h.children_eq]
  obtain ⟨-, -, -, -, -, hkey, hvalue⟩ := h
  exact List.forall_mem_cons.mpr ⟨hkey, List.forall_mem_singleton.mpr hvalue⟩

/-- Entries have no units of their own. -/
lemma not_isWhole (h : IsEntry src v key value) : ¬IsWhole src v := by
  obtain ⟨info, rfl, -⟩ := h
  rintro (⟨_, _, _, _, h⟩ | ⟨_, _, _, h⟩)
  · cases h.accepted
  · obtain ⟨_, h⟩ := h.eq
    cases h

/-- What an entry owns its key or its value owns. -/
lemma exists_owned (h : IsEntry src v key value) (ht : t ∈ v.owned) : ∃ c ∈ v.children, t ∈ c.owned := by
  have hchildren := h.children_eq
  obtain ⟨info, rfl, htoken, -, hprops, -⟩ := h
  rw [Node.owned_eq, List.mem_append, Node.ownTokens, Node.info, hprops, List.nil_append,
    Node.token, Node.info, htoken, List.mem_flatMap] at ht
  refine ht.elim (fun ht => ⟨key, by simp [hchildren], ?_⟩) id
  rw [Node.owned_eq, Node.ownTokens, List.append_assoc]
  exact List.mem_append_right _ (List.mem_append_left _ ht)

end IsEntry

/-! ### Other paths -/

section MapPaths

variable {src : Source} {pre ps mid back : List (Lexeme × Token)} {u : Lexeme × Token} {v : Node}

/-- A unit spells a node at every path. -/
lemma Spells.mapPaths (h : Spells u v) (f : String → String) : Spells u (v.mapPaths f) := by
  obtain ⟨hstop, ⟨info, text, style, rfl, hu⟩ | ⟨info, name, rfl, hu⟩⟩ := h
  · exact ⟨by rwa [Node.stop_mapPaths], .inl ⟨_, text, style, rfl, hu⟩⟩
  · exact ⟨by rwa [Node.stop_mapPaths], .inr ⟨_, name, rfl, hu⟩⟩

lemma DefinedBy.mapPaths (h : DefinedBy src pre ps u back v) (f : String → String) :
    DefinedBy src pre ps u back (v.mapPaths f) where
  units := h.units
  lead := h.lead
  start_eq := by simpa using h.start_eq
  accepted := by simpa using h.accepted
  bears := h.bears.mapPaths f
  isAnchored := by simpa [Node.info_mapPaths] using h.isAnchored
  looked := by simpa using h.looked
  shape := by
    rcases h.shape with hspells | hkind
    · exact .inl (hspells.mapPaths f)
    · exact .inr (by simpa using hkind)

lemma Unwritten.mapPaths (h : Unwritten src pre ps back v) (f : String → String) :
    Unwritten src pre ps back (v.mapPaths f) where
  units := h.units
  eq := by
    obtain ⟨info, rfl⟩ := h.eq
    exact ⟨_, rfl⟩
  before := by simpa using h.before
  behind := by simpa using h.behind
  start_le := by simpa using h.start_le
  stop_le := by simpa using h.stop_le
  isProperty := h.isProperty
  bears := h.bears.mapPaths f
  token := by simpa using h.token

lemma PairAt.mapPaths (h : PairAt src pre u back v) (f : String → String) :
    PairAt src pre u back (v.mapPaths f) where
  units := h.units
  lead := h.lead
  content := h.content
  kind := by simpa using h.kind
  start_eq := by simpa using h.start_eq
  properties := by simpa using h.properties
  token := by simpa using h.token

lemma IsWhole.mapPaths (h : IsWhole src v) (f : String → String) : IsWhole src (v.mapPaths f) :=
  h.imp (fun ⟨pre, ps, u, back, h⟩ => ⟨pre, ps, u, back, h.mapPaths f⟩)
    fun ⟨pre, ps, back, h⟩ => ⟨pre, ps, back, h.mapPaths f⟩

lemma IsEntry.mapPaths {key value : Node} (h : IsEntry src v key value) (f : String → String) :
    IsEntry src (v.mapPaths f) (key.mapPaths f) (value.mapPaths f) := by
  obtain ⟨info, rfl, htoken, hstart, hprops, hkey, hvalue⟩ := h
  exact ⟨{ info with path := f info.path }, rfl, by simpa using htoken, by simpa using hstart, hprops,
    hkey.mapPaths f, hvalue.mapPaths f⟩

end MapPaths

namespace Grown

variable {src : Source} {pre mid mid' back : List (Lexeme × Token)} {vs vs' : List Node}

/-- A forest may be moved to other paths. -/
lemma mapPaths (h : Grown src pre mid vs) (f : String → String) :
    Grown src pre mid (vs.map (·.mapPaths f)) := by
  induction h with
  | nil => exact .nil
  | skip h _ ih => exact .skip h ih
  | unwritten h _ ih => exact .unwritten (h.mapPaths f) ih
  | defined h _ _ ih ih' =>
      exact .defined (h.mapPaths f) (by rwa [Node.children_mapPaths]) ih'
  | pair h _ _ ih ih' => exact .pair (h.mapPaths f) (by rwa [Node.children_mapPaths]) ih'
  | entry h _ _ ih ih' => exact .entry (h.mapPaths f) ih ih'

/-- A forest may stand behind another one. -/
lemma append (h : Grown src pre mid vs) (h' : Grown src (pre ++ mid) mid' vs') :
    Grown src pre (mid ++ mid') (vs ++ vs') := by
  induction h with
  | nil => simpa using h'
  | skip h _ ih => exact .skip h (ih (by simpa using h'))
  | unwritten h _ ih =>
      rw [List.append_assoc]
      exact .unwritten h (ih (by simpa using h'))
  | defined h children _ _ ih' =>
      rw [List.append_assoc]
      exact .defined h children (ih' (by simpa using h'))
  | pair h children _ _ ih' =>
      rw [List.append_assoc]
      exact .pair h children (ih' (by simpa using h'))
  | entry h parts _ _ ih' =>
      rw [List.append_assoc]
      exact .entry h parts (ih' (by simpa using h'))

/-- Structure may stand in front of a forest. -/
lemma skipAll {cs : List (Lexeme × Token)} (hcs : ∀ c ∈ cs, c.1.content.isOwned = false)
    (h : Grown src (pre ++ cs) mid vs) : Grown src pre (cs ++ mid) vs := by
  induction cs generalizing pre with
  | nil => simpa using h
  | cons c cs ih =>
      refine .skip (hcs c List.mem_cons_self) (ih (fun d hd => hcs d (List.mem_cons_of_mem c hd)) ?_)
      simpa using h

/-- Structure is a forest without trees. -/
lemma structural {cs : List (Lexeme × Token)} (hcs : ∀ c ∈ cs, c.1.content.isOwned = false) :
    Grown src pre cs [] := by
  simpa using skipAll hcs (.nil : Grown src (pre ++ cs) [] [])

/-- A node without children has grown from its properties and its unit. -/
lemma leaf {ps : List (Lexeme × Token)} {u : Lexeme × Token} {v : Node}
    (h : DefinedBy src pre ps u back v) (hchildren : v.children = []) :
    Grown src pre (ps ++ [u]) [v] := by
  have hall := Grown.defined h (by rw [hchildren]; exact .nil) .nil
  rwa [List.append_nil] at hall

/-- A scalar that is not written has grown from its properties. -/
lemma bare {ps : List (Lexeme × Token)} {v : Node} (h : Unwritten src pre ps back v) :
    Grown src pre ps [v] := by
  have hall := Grown.unwritten h .nil
  rwa [List.append_nil] at hall

/-- The units in front of a forest stop in front of its trees. -/
lemma stop_le (hL : IsStream (src.units.map Prod.fst)) (h : Grown src pre mid vs) :
    ∀ v ∈ vs, ∀ w ∈ pre, w.1.stop.index ≤ v.start := by
  induction h with
  | nil => simp
  | skip h _ ih => exact fun v hv w hw => ih v hv w (List.mem_append_left _ hw)
  | unwritten h _ ih =>
      intro v hv w hw
      rcases List.mem_cons.mp hv with rfl | hv
      · exact h.before w hw
      · exact ih v hv w (List.mem_append_left _ hw)
  | defined h _ _ _ ih' =>
      intro v hv w hw
      rcases List.mem_cons.mp hv with rfl | hv
      · rw [h.start_eq]
        exact (Compose.cut_front hL h.units (by simp)).1 w hw
      · exact ih' v hv w (List.mem_append_left _ hw)
  | pair h _ _ _ ih' =>
      intro v hv w hw
      rcases List.mem_cons.mp hv with rfl | hv
      · rw [h.start_eq]
        exact (Compose.cut_front hL h.units (by simp)).1 w hw
      · exact ih' v hv w (List.mem_append_left _ hw)
  | entry h _ _ ih ih' =>
      intro v hv w hw
      rcases List.mem_cons.mp hv with rfl | hv
      · obtain ⟨info, rfl, -, hstart, -⟩ := h
        rw [Node.start, Node.info, hstart]
        exact ih _ List.mem_cons_self w hw
      · exact ih' v hv w (List.mem_append_left _ hw)

end Grown

/-! ### The nodes of forests -/

/-- How a node of a forest has grown from the units of the text, and what is below it from those
behind its own. -/
inductive Rooted (src : Source) (n : Node) : Prop
  | unwritten {pre ps back : List (Lexeme × Token)} (h : Unwritten src pre ps back n)
  | defined {pre ps mid back : List (Lexeme × Token)} {u : Lexeme × Token}
      (h : DefinedBy src pre ps u (mid ++ back) n)
      (children : Grown src (pre ++ ps ++ [u]) mid n.children)
  | pair {pre mid back : List (Lexeme × Token)} {key : Lexeme × Token}
      (h : PairAt src pre key (mid ++ back) n) (children : Grown src (pre ++ [key]) mid n.children)
  | entry {pre mid back : List (Lexeme × Token)} {key value : Node}
      (units : src.units = pre ++ (mid ++ back)) (h : IsEntry src n key value)
      (parts : Grown src pre mid [key, value])

/-- The nodes of a forest are its first root, those below that, and those of the other trees. -/
lemma Node.mem_flatMap_cons {n v : Node} {vs : List Node} :
    n ∈ (v :: vs).flatMap depthFirst ↔
      n = v ∨ n ∈ v.children.flatMap depthFirst ∨ n ∈ vs.flatMap depthFirst := by
  rw [List.flatMap_cons, depthFirst_eq, List.cons_append, List.mem_cons, List.mem_append]

/-- Some nodes of a forest: its first root or not, those below that, and those of the other trees.
-/
lemma Node.filter_flatMap_cons {p : Node → Bool} {v : Node} {vs : List Node} :
    ((v :: vs).flatMap depthFirst).filter p = [v].filter p ++
      ((v.children.flatMap depthFirst).filter p ++ (vs.flatMap depthFirst).filter p) := by
  rw [List.flatMap_cons, depthFirst_eq, ← List.filter_append, ← List.filter_append,
    ← List.append_assoc, List.singleton_append]

/-- All nodes of a forest have grown from units of the text, by induction on the forest. -/
theorem Grown.rooted {src : Source} {pre mid : List (Lexeme × Token)} {vs : List Node}
    (h : Grown src pre mid vs) : ∀ back, src.units = pre ++ (mid ++ back) →
      ∀ n ∈ vs.flatMap Node.depthFirst, Rooted src n := by
  induction h with
  | nil => simp
  | skip _ _ ih => exact fun back hunits => ih back (by simpa using hunits)
  | unwritten h _ ih =>
      intro back hunits n hn
      rcases Node.mem_flatMap_cons.mp hn with rfl | hn | hn
      · exact .unwritten h
      · obtain ⟨info, rfl⟩ := h.eq
        simp [Node.children] at hn
      · exact ih back (by simpa using hunits) n hn
  | @defined pre ps back' mid mid' u v vs h children _ ih ih' =>
      intro back hunits n hn
      have hback : back' = mid ++ (mid' ++ back) := by
        simpa using h.units.symm.trans hunits
      subst hback
      rcases Node.mem_flatMap_cons.mp hn with rfl | hn | hn
      · exact .defined h children
      · exact ih (mid' ++ back) (by simpa using hunits) n hn
      · exact ih' back (by simpa using hunits) n hn
  | @pair pre back' mid mid' key v vs h children _ ih ih' =>
      intro back hunits n hn
      have hback : back' = mid ++ (mid' ++ back) := by
        simpa using h.units.symm.trans hunits
      subst hback
      rcases Node.mem_flatMap_cons.mp hn with rfl | hn | hn
      · exact .pair h children
      · exact ih (mid' ++ back) (by simpa using hunits) n hn
      · exact ih' back (by simpa using hunits) n hn
  | @entry pre mid mid' v key value vs h parts _ ih ih' =>
      intro back hunits n hn
      rw [List.append_assoc] at hunits
      rcases Node.mem_flatMap_cons.mp hn with rfl | hn | hn
      · exact .entry hunits h parts
      · obtain ⟨info, rfl, -⟩ := h
        exact ih (mid' ++ back) hunits n hn
      · exact ih' back (by simpa using hunits) n hn

/-- The unit of a node is one of the text. -/
lemma DefinedBy.mem {src : Source} {pre ps back : List (Lexeme × Token)} {u : Lexeme × Token}
    {v : Node} (h : DefinedBy src pre ps u back v) : u ∈ src.units := by
  simp [h.units]

/-- A node starts with its unit or in front of it. -/
lemma DefinedBy.start_le {src : Source} {pre ps back : List (Lexeme × Token)} {u : Lexeme × Token}
    {v : Node} (hL : IsStream (src.units.map Prod.fst)) (h : DefinedBy src pre ps u back v) :
    v.start ≤ u.1.start.index := by
  rw [h.start_eq]
  exact (Compose.cut_front hL h.units (by simp)).2 u (by simp)

/-- A node that has a unit of its own shows that unit, unless one of its kind without text stands at
its start: then it shows such a one. -/
lemma DefinedBy.token_or {src : Source} {pre ps back : List (Lexeme × Token)} {u : Lexeme × Token}
    {v : Node} (hL : IsStream (src.units.map Prod.fst)) (h : DefinedBy src pre ps u back v) :
    (v.token = some u.2 ∧
      ∀ z ∈ pre, v.start ≤ z.1.start.index → v.kind.accepts z.1.content = false) ∨
    ∃ front z zs, pre = front ++ z :: zs ∧ v.token = some z.2 ∧
      v.kind.accepts z.1.content = true ∧
        ∀ w ∈ z :: zs, w.1.isEmpty = true ∧ w.1.content.isOwned = false := by
  obtain ⟨limit, hle, htoken⟩ := h.looked
  obtain ⟨hpre, hus⟩ := Compose.cut_front hL h.units (by simp)
  rw [← h.start_eq] at hpre hus
  obtain ⟨front, zs, hsplit, htake, hdrop, hzs⟩ := Source.exists_takeWhile hL h.units hpre hus
  rw [Source.definingToken?, hdrop] at htoken
  by_cases hnone : ∀ z ∈ zs, v.kind.accepts z.1.content = false
  · refine .inl ⟨?_, fun z hz hstart => hnone z ?_⟩
    case refine_2 =>
      rw [hsplit, ← htake] at hz
      refine (List.mem_append.mp hz).resolve_left fun hz => ?_
      have hlt := List.all_takeWhile (l := src.units)
        (p := fun w : Lexeme × Token => decide (w.1.start.index < v.start))
      have := List.all_eq_true.mp hlt z hz
      simp only [decide_eq_true_eq] at this
      omega
    rw [htoken, ← List.append_assoc, Source.firstAccepted?_eq_some h.accepted hle]
    intro x hx
    rcases List.mem_append.mp hx with hx | hx
    · exact ⟨hnone x hx, .inr (hzs x hx).1⟩
    · have hprop := h.bears.isProperty x hx
      refine ⟨?_, .inl hprop⟩
      revert hprop
      rw [Lexeme.isProperty]
      cases v.kind <;> cases x.1.content <;>
        simp [NodeKind.accepts, isReferenceUnit, isScalarUnit, isSequenceUnit, isMappingUnit]
  · right
    -- the first of the units without text that is accepted is found before the node's own
    obtain ⟨z, hfind⟩ : ∃ z, zs.find? (v.kind.accepts ·.1.content) = some z := by
      rw [← Option.isSome_iff_exists, List.find?_isSome]
      simpa using hnone
    obtain ⟨hz, xs, ys, rfl, hxs⟩ := List.find?_eq_some_iff_append.mp hfind
    have hmark := hzs z (by simp)
    have hstop : z.1.stop.index ≤ limit := by
      have hu := hus u (by simp)
      have hz := hpre z (by simp [hsplit])
      have hsound := (hL.isSound u.1 (List.mem_map_of_mem h.mem)).start_le
      omega
    refine ⟨front ++ xs, z, ys, by rw [hsplit, List.append_assoc], ?_, hz, fun w hw =>
      hzs w (List.mem_append_right xs hw)⟩
    rw [htoken, List.append_assoc, List.cons_append, Source.firstAccepted?_eq_some hz hstop]
    exact fun x hx => ⟨by simpa using hxs x hx, .inr (hzs x (by simp [hx])).1⟩

/-- A forest behind the first of its units, which is structure; without units there are no trees. -/
def GrownBehind (src : Source) (pre mid : List (Lexeme × Token)) (vs : List Node) : Prop :=
  mid = [] ∧ vs = [] ∨ ∃ u mid', mid = u :: mid' ∧ u.1.content.isOwned = false ∧
    Grown src (pre ++ [u]) mid' vs

/-- The first unit may be passed over. -/
lemma GrownBehind.grown {src : Source} {pre mid : List (Lexeme × Token)} {vs : List Node}
    (h : GrownBehind src pre mid vs) : Grown src pre mid vs := by
  rcases h with ⟨rfl, rfl⟩ | ⟨u, mid', rfl, hu, h⟩
  · exact .nil
  · exact .skip hu h

/-- The first unit stands in front of all trees. -/
lemma GrownBehind.behind_first {src : Source} {pre mid : List (Lexeme × Token)} {u : Lexeme × Token}
    {vs : List Node} (h : GrownBehind src pre (u :: mid) vs) : Grown src (pre ++ [u]) mid vs := by
  rcases h with ⟨hnil, -⟩ | ⟨w, mid', heq, -, h⟩
  · cases hnil
  · obtain ⟨rfl, rfl⟩ := List.cons.inj heq
    exact h

namespace Compose

variable {src : Source} {pre ps mid mid' us back : List (Lexeme × Token)} {u : Lexeme × Token}
variable {v : Node} {path : String} {anchor tag : Option String} {e : Event} {stop : Nat}
variable {flow : Bool}

/-! ### Nodes from their events -/

/-- A node whose event starts with its properties and stops with its unit or behind it. -/
lemma definedBy_of_info (hL : IsStream (src.units.map Prod.fst))
    (hunits : src.units = pre ++ (ps ++ u :: us)) (hlead : LeadsNode pre)
    (hprops : Announces (ps.map Prod.fst) anchor tag) (hu : v.kind.accepts u.1.content = true)
    (hle : u.1.stop.index ≤ e.stop.index)
    (hstart : e.start = (front ((ps ++ u :: us).map Prod.fst)).start)
    (hinfo : v.info = nodeInfo src v.kind.accepts path anchor tag e stop)
    (hshape : Spells u v ∨ v.kind = .mapping ∨ v.kind = .sequence) :
    DefinedBy src pre ps u us v := by
  obtain ⟨hpre, hus, hproperties, htoken⟩ := lookups_of_info hL hunits hstart hinfo
  have hclear : Clear ((u :: us).map Prod.fst) := by
    rw [Clear, List.map_cons, front_cons, Lexeme.isProperty]
    revert hu
    cases v.kind <;> cases u.1.content <;>
      simp [NodeKind.accepts, isReferenceUnit, isScalarUnit, isSequenceUnit, isMappingUnit]
  refine ⟨hunits, hlead, ?_, hu, .of_announces hL hunits hpre hus hprops hclear hproperties, ?_,
    ⟨_, hle, htoken⟩, hshape⟩
  · rw [Node.start, hinfo, nodeInfo, hstart]
  · rw [hinfo]
    exact fun p hp name hname => hprops.isAnchored p.1 (List.mem_map_of_mem hp) name hname

/-- A scalar without text, of which only its properties are written. -/
lemma unwritten_bare (hL : IsStream (src.units.map Prod.fst))
    (hunits : src.units = pre ++ (ps ++ u :: back))
    (hprops : Announces ((ps ++ [u]).map Prod.fst) anchor tag) (hclear : Clear (back.map Prod.fst))
    (hstart : e.start = (front ((ps ++ u :: back).map Prod.fst)).start) (hstop : e.stop = u.1.stop)
    (hv : v = .scalar (nodeInfo src isScalarUnit path anchor tag e u.1.stop.index) (some "")) :
    Unwritten src pre (ps ++ [u]) back v := by
  have hinfo : v.info = nodeInfo src isScalarUnit path anchor tag e u.1.stop.index := by
    rw [hv, Node.info]
  obtain ⟨hpre, hus, hproperties, htoken⟩ := lookups_of_info hL hunits hstart hinfo
  have hend : v.stop = u.1.stop.index := by rw [Node.stop, hinfo, nodeInfo]
  have hu : u ∈ src.units := by simp [hunits]
  have hle := (hL.isSound u.1 (List.mem_map_of_mem hu)).start_le
  have hsplit : src.units = (pre ++ ps) ++ u :: back := by simp [hunits]
  rw [List.append_cons] at hunits hus
  refine ⟨hunits, ⟨_, hv⟩, hpre, hus, ?_, fun w hw => ?_,
    fun w hw => hprops.isProperty w.1 (List.mem_map_of_mem hw),
    .of_announces hL hunits hpre hus hprops hclear hproperties, ?_⟩
  · rw [hend]
    exact Nat.le_trans (hus u (by simp)) hle
  · rw [hend]
    exact stop_le_of_mem hL hsplit hw
  · rw [htoken, hend, hstop]

/-- A scalar that is not written. -/
lemma unwritten_empty {m : Mark} (hunits : src.units = pre ++ us)
    (hcut : CutAt (src.units.map Prod.fst) m.index (us.map Prod.fst))
    (hv : v = .scalar (nodeInfo src isScalarUnit path none none (emptyScalar m) m.index)
      (some "")) : Unwritten src pre [] us v := by
  have hsplit : src.units.map Prod.fst = pre.map Prod.fst ++ us.map Prod.fst := by
    rw [hunits, List.map_append]
  have hus : ∀ w ∈ us, m.index ≤ w.1.start.index := fun w hw =>
    hcut.after w.1 (List.mem_map_of_mem hw)
  subst hv
  exact ⟨hunits, ⟨_, rfl⟩, fun w hw => hcut.before _ hsplit w.1 (List.mem_map_of_mem hw), hus,
    Nat.le_refl _, hus, by simp, .none rfl rfl, rfl⟩

/-! ### Forests from their units -/

/-- How what a section of the grammar is composed to has grown from the units `mid`. -/
def GrownBy (src : Source) (pre mid : List (Lexeme × Token)) : Section → Contents → Prop
  | .node, c | .value, c => Grown src pre mid c.nodes ∧ ∀ v ∈ c.nodes, IsWhole src v
  | .items _, c | .entries _, c => GrownBehind src pre mid c.nodes

/-- A unit around the contents of a collection may stand in front. -/
lemma GrownBy.frame {s : Section} {c : Contents} (hframes : s.frames u.1.content = true)
    (h : GrownBy src (pre ++ [u]) mid s c) : GrownBy src pre (u :: mid) s c := by
  have hu := Section.isOwned_of_frames hframes
  cases s with
  | node => cases hframes
  | value => cases hframes
  | items flow => exact .inr ⟨u, mid, rfl, hu, h.grown⟩
  | entries flow => exact .inr ⟨u, mid, rfl, hu, h.grown⟩

/-- A node without children that has a unit of its own. -/
lemma grownBy_leaf (h : DefinedBy src pre ps u back v) (hchildren : v.children = []) :
    GrownBy src pre (ps ++ [u]) .node (.one v) :=
  ⟨.leaf h hchildren, List.forall_mem_singleton.mpr (.inl ⟨_, _, _, _, h⟩)⟩

/-- A scalar of which only properties are written. -/
lemma grownBy_unwritten {s : Section} (hs : s = .node ∨ s = .value)
    (h : Unwritten src pre ps back v) : GrownBy src pre ps s (.one v) := by
  rcases hs with rfl | rfl <;>
    exact ⟨.bare h, List.forall_mem_singleton.mpr (.inr ⟨_, _, _, h⟩)⟩

/-- A collection behind its properties. -/
lemma grownBy_collection {c : Contents} (hL : IsStream (src.units.map Prod.fst))
    (hunits : src.units = pre ++ (ps ++ u :: (mid ++ back))) (hlead : LeadsNode pre)
    (hprops : Announces (ps.map Prod.fst) anchor tag) (hu : v.kind.accepts u.1.content = true)
    (hle : u.1.stop.index ≤ e.stop.index)
    (hstart : e.start = (front ((ps ++ u :: (mid ++ back)).map Prod.fst)).start)
    (h : GrownBehind src (pre ++ ps) (u :: mid) c.nodes)
    (hinfo : v.info = nodeInfo src v.kind.accepts path anchor tag e (collectionStop flow c))
    (hchildren : v.children = c.nodes) (hkind : v.kind = .mapping ∨ v.kind = .sequence) :
    GrownBy src pre (ps ++ u :: mid) .node (.one v) := by
  have hdefined := definedBy_of_info hL hunits hlead hprops hu hle hstart hinfo (.inr hkind)
  have hall := Grown.defined hdefined (by rw [hchildren]; exact h.behind_first) .nil
  rw [List.append_nil] at hall
  exact ⟨hall, List.forall_mem_singleton.mpr (.inl ⟨_, _, _, _, hdefined⟩)⟩

/-- What stands in front of a section of the grammar: in front of a node a unit that leads to it. -/
def LedBy (pre : List (Lexeme × Token)) : Section → Prop
  | .node => LeadsNode pre
  | .value | .items _ | .entries _ => True

/-- **Composed trees have grown from their units.** -/
theorem grown_of_composes (hL : IsStream (src.units.map Prod.fst)) {s : Section} {c : Contents}
    (h : Composes src s mid back c) :
    ∀ pre, src.units = pre ++ (mid ++ back) → LedBy pre s → GrownBy src pre mid s c := by
  induction h with
  | @reference u back _ _ hu =>
      intro pre hunits hled
      show GrownBy src pre ([] ++ [u]) .node _
      exact grownBy_leaf (definedBy_of_info hL hunits hled announces_nil (by rw [hu]; rfl)
        (Nat.le_refl _) rfl rfl (.inl ⟨rfl, .inr ⟨_, _, rfl, hu⟩⟩)) rfl
  | scalar props hu =>
      intro pre hunits hled
      exact grownBy_leaf (definedBy_of_info hL (by simpa using hunits) hled props (by rw [hu]; rfl)
        (Nat.le_refl _) rfl rfl (.inl ⟨rfl, .inl ⟨_, _, _, rfl, hu⟩⟩)) rfl
  | bare props hclear =>
      intro pre hunits _
      exact grownBy_unwritten (.inl rfl)
        (unwritten_bare hL (by simpa using hunits) props hclear rfl rfl rfl)
  | empty hcut =>
      exact fun pre hunits _ => grownBy_unwritten (.inl rfl) (unwritten_empty hunits hcut rfl)
  | missing hcut =>
      exact fun pre hunits _ => grownBy_unwritten (.inr rfl) (unwritten_empty hunits hcut rfl)
  | @sequence ps _ _ _ _ _ _ _ _ _ props opens hle _ ih =>
      intro pre hunits hled
      exact grownBy_collection hL (by simpa using hunits) hled props opens hle rfl
        (ih (pre ++ ps) (by simpa using hunits) trivial) rfl rfl (.inr rfl)
  | @mapping ps _ _ _ _ _ _ _ _ _ props opens hle _ ih =>
      intro pre hunits hled
      exact grownBy_collection hL (by simpa using hunits) hled props opens hle rfl
        (ih (pre ++ ps) (by simpa using hunits) trivial) rfl rfl (.inl rfl)
  | @valued u _ _ _ hu _ ih =>
      intro pre hunits _
      obtain ⟨hgrown, hwhole⟩ := ih (pre ++ [u]) (by simpa using hunits) ⟨pre, u, rfl, by rw [hu]; rfl⟩
      exact ⟨.skip (by rw [hu]; rfl) hgrown, hwhole⟩
  | @frame s u _ _ _ hframes _ ih =>
      intro pre hunits _
      have hled : LedBy (pre ++ [u]) s := by
        cases s with
        | node => cases hframes
        | _ => trivial
      exact (ih (pre ++ [u]) (by simpa using hunits) hled).frame hframes
  | itemsEnd _ | entriesEnd _ => exact fun _ _ _ => .inl ⟨rfl, rfl⟩
  | @item _ lead mid _ _ _ _ leads _ _ ih ih' =>
      intro pre hunits _
      obtain ⟨hnode, -⟩ := ih (pre ++ [lead]) (by simpa using hunits)
        ⟨pre, lead, rfl, leadsNode_of_leads (.inl leads)⟩
      have hmore := ih' (pre ++ [lead] ++ mid) (by simpa using hunits) trivial
      exact .inr ⟨lead, _, rfl, isOwned_of_leadsItem leads, hnode.append hmore.grown⟩
  | @pair lead key mid mid' back _ _ _ leads hkey _ _ ih ih' =>
      intro pre hunits _
      have hentries := ih (pre ++ [lead]) (by simpa using hunits) trivial
      have hmore := ih' (pre ++ [lead] ++ key :: mid) (by simpa using hunits) trivial
      have hsplit : src.units = (pre ++ [lead]) ++ key :: (mid ++ (mid' ++ back)) := by
        simpa using hunits
      exact .inr ⟨lead, _, rfl, isOwned_of_leadsItem leads,
        .pair ⟨hsplit, ⟨pre, lead, rfl, leads⟩, hkey, rfl, rfl, rfl, rfl⟩ hentries.behind_first
          hmore.grown⟩
  | @entry _ lead mid mid' _ _ _ _ k v _ leads _ _ _ ih ih' ih'' =>
      intro pre hunits _
      obtain ⟨hkey, hwhole⟩ := ih (pre ++ [lead]) (by simpa using hunits)
        ⟨pre, lead, rfl, leadsNode_of_leads (.inr leads)⟩
      obtain ⟨hvalue, hwhole'⟩ := ih' (pre ++ [lead] ++ mid) (by simpa using hunits) trivial
      have hmore := ih'' (pre ++ [lead] ++ (mid ++ mid')) (by simpa using hunits) trivial
      refine .inr ⟨lead, _, rfl, isOwned_of_leadsKey leads,
        .entry ⟨_, rfl, rfl, rfl, rfl, ?_, ?_⟩ ((hkey.mapPaths _).append hvalue) hmore.grown⟩
      · exact (hwhole k (List.mem_singleton_self k)).mapPaths _
      · exact hwhole' v (List.mem_singleton_self v)

/-! ### Documents -/

/-- The body of a document stands behind the start of the stream or the marker of the document. -/
lemma leadsNode_of_opens {first : Bool} {heads : List (Lexeme × Token)}
    (hstart : ∀ w ∈ src.units.head?, w.1.content = .streamStart)
    (hunits : src.units = pre ++ (heads ++ us))
    (h : Opens (src.units.map Prod.fst) first (heads.map Prod.fst) (us.map Prod.fst) e) :
    LeadsNode (pre ++ heads) := by
  rcases heads_of_opens h with ⟨-, rfl, -, lead, hlead⟩ | ⟨directives, w, rfl, -, hw, -⟩
  · have hlen : pre.length = 1 := by
      have := congrArg List.length hlead
      simp [hunits] at this
      omega
    obtain ⟨w, rfl⟩ := List.length_eq_one_iff.mp hlen
    refine ⟨[], w, rfl, ?_⟩
    rw [hstart w (by simp [hunits])]
    rfl
  · exact ⟨pre ++ directives, w, (List.append_assoc _ _ _).symm, by rw [hw]; rfl⟩

/-- The bodies of the documents of a stream have grown from its units. -/
theorem grown_documents (hL : IsStream (src.units.map Prod.fst))
    (hstart : ∀ w ∈ src.units.head?, w.1.content = .streamStart) {first : Bool} {ds : List Node}
    (h : ComposesDocuments src first us ds) :
    ∀ pre, src.units = pre ++ us → Grown src pre us (ds.flatMap Node.children) := by
  induction h with
  | done hus => exact fun _ _ => .structural fun u hu => by rw [hus u hu]; rfl
  | @closed _ u _ _ hu _ ih =>
      exact fun pre hunits => .skip (by rw [hu]; rfl) (ih (pre ++ [u]) (by simpa using hunits))
  | @document _ heads mid closers _ _ _ _ _ opens _ node _ closes _ _ ih =>
      intro pre hunits
      obtain ⟨hbody, -⟩ := grown_of_composes hL node (pre ++ heads) (by simpa using hunits)
        (leadsNode_of_opens hstart hunits opens)
      have hmore := ih (pre ++ heads ++ mid ++ closers) (by simpa using hunits)
      have hclosers := Grown.skipAll (fun u hu => by rw [closes u hu]; rfl) hmore
      exact .skipAll (fun u hu => opens.isOwned u.1 (List.mem_map_of_mem hu))
        (hbody.append hclosers)

end Compose

/-! ### Texts that are accepted -/

/-- The nodes of some kinds in the tree of a stream are those of its bodies, unless they are
documents or their set. -/
lemma filter_depthFirst_documentSetOf {ds : List Node} {p : Node → Bool}
    (hp : ∀ n, p n = true → n.kind ≠ .documentSet ∧ n.kind ≠ .document)
    (hds : ∀ c ∈ ds, c.kind = .document) :
    (Node.documentSetOf ds).depthFirst.filter p =
      ((ds.flatMap Node.children).flatMap Node.depthFirst).filter p := by
  have hset : p (.documentSetOf ds) = false := by
    rw [← Bool.not_eq_true]
    exact fun h => (hp _ h).1 rfl
  rw [Node.depthFirst_eq, List.filter_cons_of_neg (by simp [hset])]
  show (ds.flatMap Node.depthFirst).filter p = _
  rw [List.flatMap_assoc, List.filter_flatMap, List.filter_flatMap]
  refine List.flatMap_congr fun c hc => ?_
  have hdocument : p c = false := by
    rw [← Bool.not_eq_true]
    exact fun h => (hp _ h).2 (hds c hc)
  rw [Node.depthFirst_eq, List.filter_cons_of_neg (by simp [hdocument])]

/-- The nodes of the tree of a stream are those of its bodies, unless they are documents or their
set. -/
lemma mem_bodies {ds : List Node} {n : Node} (hn : n ∈ (Node.documentSetOf ds).depthFirst)
    (hset : n.kind ≠ .documentSet) (hdocument : n.kind ≠ .document)
    (hds : ∀ c ∈ ds, c.kind = .document) : n ∈ (ds.flatMap Node.children).flatMap Node.depthFirst := by
  have hmem : n ∈ (Node.documentSetOf ds).depthFirst.filter
      (fun m => decide (m.kind ≠ .documentSet ∧ m.kind ≠ .document)) :=
    List.mem_filter.mpr ⟨hn, by simp [hset, hdocument]⟩
  rw [filter_depthFirst_documentSetOf (fun m hm => by simpa using hm) hds] at hmem
  exact (List.mem_filter.mp hmem).1

/-- The bodies of the documents of a text that is accepted have grown from its units. -/
theorem exists_grown_of_parse {source : String} {d : Parsed} (h : parse source = .ok d) :
    ∃ ls ds, Lexeme.scan source.toList = .ok ls ∧
      d.tokens = Stream.ofTiles (LineTable.ofText source.toList) (tiles source.toList ls) ∧
      d.documents = .documentSetOf ds ∧ (∀ c ∈ ds, c.kind = .document) ∧
      Grown ⟨source.toList, unitsOf source.toList ls⟩ [] (unitsOf source.toList ls)
        (ds.flatMap Node.children) := by
  obtain ⟨ls, ds, w, us, hls, htokens, htree, hL, hunits, hw, hdocuments⟩ :=
    exists_composes_of_parse h
  have hstart : ∀ u ∈ (unitsOf source.toList ls).head?, u.1.content = .streamStart := by
    simpa [hunits] using hw
  have hgrown := Compose.grown_documents hL hstart hdocuments [w] hunits
  -- the start of the stream is structure
  have hall : Grown ⟨source.toList, unitsOf source.toList ls⟩ [] (w :: us)
      (ds.flatMap Node.children) := .skip (by rw [hw]; rfl) hgrown
  rw [← hunits] at hall
  exact ⟨ls, ds, hls, htokens, htree, hdocuments.kind_eq, hall⟩

end YamlNavigator
