import YamlNavigator.Proofs.Document.Carriers

/-!
What an alias stands for when it is a key.

* `Compose.Holds`, `Compose.holds`: what holds of a node by its first event holds of all nodes of a
  composed tree;
* `aliasSegment`: what an alias adds to a path, by the node that it stands for;
* `Node.Strays`, `Node.aliasSegment_eq_iff`: when the node that ended last and the node that began
  last give different segments;
* `aliasKey_follows_iff`: the segments of the alias keys of a text.

By the rule for anchors an alias stands for the last node with its anchor that begins in front of
it. An anchor is recorded when its node has ended, so that the last node that ends is taken instead.
-/

namespace YamlNavigator

open Yaml

/-! ### What holds of all nodes -/

namespace Compose

variable {P : Node → Prop} {src : Source} {n : Nat} {a : Anchors} {path : String} {es : List Event}

/-- A property of all nodes that are composed within a bound. -/
structure Holds (P : Node → Prop) (src : Source) (n : Nat) : Prop where
  node : ∀ {a path es c}, node src n a path es = .ok c → ∀ m ∈ c.value.depthFirst, P m
  items : ∀ {a path index es c}, items src n a path index es = .ok c →
    ∀ x ∈ c.value.nodes, ∀ m ∈ x.depthFirst, P m
  entries : ∀ {a path es c}, entries src n a path es = .ok c →
    ∀ x ∈ c.value.nodes, ∀ m ∈ x.depthFirst, P m

namespace Holds

/-- Nothing is composed in no steps. -/
lemma zero (P : Node → Prop) (src : Source) : Holds P src 0 where
  node h := by cases h
  items h := by cases h
  entries h := by cases h

/-- A node has the property if it has by its first event, and what is below it has. -/
lemma node_succ (hnode : ∀ {k a path e rest c}, NodeRun src k a path e rest c → P c.value)
    (ih : Holds P src n) {c : Composed Node} (h : Compose.node src (n + 1) a path es = .ok c) :
    ∀ m ∈ c.value.depthFirst, P m := by
  obtain ⟨k, e, rest, hk, -, hrun⟩ := run_of_node h
  cases hk
  have hvalue := hnode hrun
  intro m hm
  rw [Node.depthFirst_eq] at hm
  rcases List.mem_cons.mp hm with rfl | hm
  · exact hvalue
  obtain ⟨x, hx, hx'⟩ := List.mem_flatMap.mp hm
  cases hrun with
  | reference step => cases hx
  | scalar step => cases hx
  | sequence step hitems => exact ih.items hitems x hx m hx'
  | mapping step hentries => exact ih.entries hentries x hx m hx'

/-- Items have the property. -/
lemma items_succ (ih : Holds P src n) {index : Nat} {c : Composed Contents}
    (h : Compose.items src (n + 1) a path index es = .ok c) :
    ∀ x ∈ c.value.nodes, ∀ m ∈ x.depthFirst, P m := by
  obtain ⟨k, e, rest, hk, -, hrun⟩ := run_of_items h
  cases hk
  cases hrun with
  | done step => exact List.forall_mem_nil _
  | item step hnode hitems => exact List.forall_mem_cons.mpr ⟨ih.node hnode, ih.items hitems⟩

/-- Entries have the property if it does not depend on paths. -/
lemma entries_succ (hmap : ∀ f m, P m → P (m.mapPaths f))
    (hentry : ∀ path k v, P (.entryOf path k v)) (ih : Holds P src n) {c : Composed Contents}
    (h : Compose.entries src (n + 1) a path es = .ok c) :
    ∀ x ∈ c.value.nodes, ∀ m ∈ x.depthFirst, P m := by
  obtain ⟨k, e, rest, hk, -, hrun⟩ := run_of_entries h
  cases hk
  cases hrun with
  | done step => exact List.forall_mem_nil _
  | @entry key value more target step hkey htarget hvalue hentries =>
      refine List.forall_mem_cons.mpr ⟨fun m hm => ?_, ih.entries hentries⟩
      have hchildren : (Node.entryOf target (key.value.mapPaths (reroot path target))
          value.value).children = [key.value.mapPaths (reroot path target), value.value] := rfl
      rw [Node.depthFirst_eq, hchildren, List.flatMap_cons, List.flatMap_singleton,
        Node.depthFirst_mapPaths] at hm
      rcases List.mem_cons.mp hm with rfl | hm
      · exact hentry _ _ _
      · rcases List.mem_append.mp hm with hm | hm
        · obtain ⟨x, hx, rfl⟩ := List.mem_map.mp hm
          exact hmap _ x (ih.node hkey x hx)
        · exact ih.node hvalue m hm

end Holds

/-- **A property of all composed nodes**: it follows for each from its first event, if it holds of
all entries and does not depend on paths. -/
theorem holds (hnode : ∀ {k a path e rest c}, NodeRun src k a path e rest c → P c.value)
    (hmap : ∀ f m, P m → P (m.mapPaths f)) (hentry : ∀ path k v, P (.entryOf path k v)) (n : Nat) :
    Holds P src n := by
  induction n with
  | zero => exact Holds.zero P src
  | succ n ih => exact ⟨Holds.node_succ hnode ih, ih.items_succ, Holds.entries_succ hmap hentry ih⟩

end Compose

namespace Node

/-- A scalar has a text, and an alias has a name and carries no anchor. -/
def IsValued : Node → Prop
  | scalar _ value => value.isSome
  | reference info name => info.anchor = none ∧ name.isSome
  | _ => True

/-- Composed scalars have texts, and composed aliases have names. -/
lemma isValued_of_composed {src : Source} {n : Nat} {a : Anchors} {path : String} {es : List Event}
    {c : Compose.Composed Node} (h : Compose.node src n a path es = .ok c) :
    ∀ m ∈ c.value.depthFirst, m.IsValued := by
  refine (Compose.holds (P := IsValued) ?_ ?_ (fun _ _ _ => trivial) n).node h
  · intro k a path e rest c hrun
    cases hrun with
    | reference step => exact ⟨rfl, rfl⟩
    | scalar step => rfl
    | _ => trivial
  · intro f m hm
    cases m <;> exact hm

end Node

/-! ### Segments of aliases -/

/-- What an alias adds to a path as a key: the value of the scalar that it stands for, or else what
is written. -/
def aliasSegment (name : String) : Option Node → String
  | some (.scalar _ value) => value.getD ""
  | _ => "*" ++ name

/-- An alias stays as it is written unless it stands for a scalar with another value. -/
lemma aliasSegment_eq_written_iff {name : String} {target : Option Node} :
    aliasSegment name target = "*" ++ name ↔
      ∀ info value, target = some (.scalar info value) → value.getD "" = "*" ++ name := by
  constructor
  · rintro h info value rfl
    exact h
  · intro h
    rcases target with - | d
    · rfl
    · cases d with
      | scalar info value => exact h info value rfl
      | _ => rfl

/-- The segment of an alias with the anchors of the nodes that have ended. -/
lemma keySegment_anchorsOf {src : Source} {info : NodeInfo} {name : String} {ended : List Node}
    (h : ∀ m ∈ ended, m.IsValued) :
    keySegment src (Node.anchorsOf [] ended) (.reference info (some name)) =
      aliasSegment name (Node.lastCarrier? name ended) := by
  rw [keySegment, Option.getD_some, Node.lookup_anchorsOf]
  cases hlast : Node.lastCarrier? name ended with
  | none => rfl
  | some d =>
      have hd := h d (Node.mem_of_lastCarrier? hlast).1
      cases d with
      | scalar info value =>
          obtain ⟨text, rfl⟩ := Option.isSome_iff_exists.mp hd
          rfl
      | _ => rfl

namespace Node

/-- The nodes in front of an alias lead to `text` instead of what the rule for anchors gives: the
last node with the anchor is a scalar that has ended inside another one with the anchor, or it has
not ended, and the last one that has is a scalar. -/
inductive Strays (name : String) (begun ended : List Node) : String → Prop
  | inside {p : Nat} {info : NodeInfo} {value : Option String}
      (latest : Latest name begun p (.scalar info value)) (wrapped : Wrapped name begun p) :
      Strays name begun ended (value.getD "")
  | around {p : Nat} {d : Node} {info : NodeInfo} {value : Option String}
      (latest : Latest name begun p d) (goes_on : begun.length < p + d.count)
      (last : lastCarrier? name ended = some (.scalar info value)) :
      Strays name begun ended (value.getD "")

variable {name : String} {begun ended : List Node}

/-- Where the last node with the anchor is known, the nodes stray if it is wrapped or open. -/
lemma strays_iff {p : Nat} {d : Node} (latest : Latest name begun p d) {text : String} :
    Strays name begun ended text ↔
      (Wrapped name begun p ∧ ∃ info value, d = .scalar info value ∧ value.getD "" = text) ∨
        (begun.length < p + d.count ∧
          ∃ info value, lastCarrier? name ended = some (.scalar info value) ∧
            value.getD "" = text) := by
  constructor
  · intro h
    cases h with
    | inside latest' wrapped =>
        obtain ⟨rfl, rfl⟩ := latest.unique latest'
        exact .inl ⟨wrapped, _, _, rfl, rfl⟩
    | around latest' goes_on last =>
        obtain ⟨rfl, rfl⟩ := latest.unique latest'
        exact .inr ⟨goes_on, _, _, last, rfl⟩
  · rintro (⟨wrapped, info, value, rfl, rfl⟩ | ⟨goes_on, info, value, last, rfl⟩)
    · exact .inside latest wrapped
    · exact .around latest goes_on last

/-- A scalar ends where it begins. -/
lemma ne_scalar_of_lt {p : Nat} {d : Node} (latest : Latest name begun p d)
    (h : begun.length < p + d.count) (info : NodeInfo) (value : Option String) :
    d ≠ .scalar info value := by
  rintro rfl
  have hlt := (List.getElem?_eq_some_iff.mp latest.here).1
  have hcount : (scalar info value).count = 1 := by
    rw [count_eq]
    rfl
  omega

/-- **The node that ended last and the node that began last** give the same segment, unless the
nodes in front lead to another text than what is written. -/
theorem aliasSegment_eq_iff (h : Stands name begun ended) :
    aliasSegment name (lastCarrier? name ended) = aliasSegment name (lastCarrier? name begun) ↔
      ∀ text, Strays name begun ended text → text = "*" ++ name := by
  rcases h with h | @⟨p, d, latest, goes_on⟩
  · cases h with
    | absent hbegun hended =>
        have hlatest : ∀ {p d}, ¬ Latest name begun p d := fun latest =>
          absurd (latest.lastCarrier?_eq.symm.trans hbegun) (by simp)
        rw [hbegun, hended]
        refine iff_of_true rfl fun text hstrays => ?_
        cases hstrays with
        | inside latest => exact absurd latest hlatest
        | around latest => exact absurd latest hlatest
    | same latest stops last apart =>
        rw [latest.lastCarrier?_eq, last]
        refine iff_of_true rfl fun text hstrays => ?_
        rcases (strays_iff latest).mp hstrays with ⟨wrapped, -⟩ | ⟨goes_on, -⟩
        · exact absurd wrapped apart
        · omega
    | wrapped latest stops last below inside =>
        -- what ended last has nodes below it, so the alias stays as it is written
        rw [latest.lastCarrier?_eq, last, aliasSegment_eq_written_iff.mpr, eq_comm,
          aliasSegment_eq_written_iff]
        · constructor
          · intro heq text hstrays
            rcases (strays_iff latest).mp hstrays with ⟨-, info, value, rfl, rfl⟩ | ⟨goes_on, -⟩
            · exact heq info value rfl
            · omega
          · rintro h info value hd
            obtain rfl := Option.some.inj hd
            exact h _ (.inside latest inside)
        · rintro info value he
          obtain rfl := Option.some.inj he
          exact absurd rfl below
  · -- what began last is open, so the alias should stay as it is written
    have hopen := ne_scalar_of_lt latest goes_on
    rw [latest.lastCarrier?_eq, aliasSegment_eq_written_iff.mpr fun info value hd =>
      absurd (Option.some.inj hd) (hopen info value), aliasSegment_eq_written_iff]
    constructor
    · intro heq text hstrays
      rcases (strays_iff latest).mp hstrays with ⟨-, info, value, hd, -⟩ | ⟨-, info, value, he, rfl⟩
      · exact absurd hd (hopen info value)
      · exact heq info value he
    · exact fun h info value he => h _ (.around latest goes_on he)

/-- The path of an entry whose key is an alias, by the nodes that have ended in front of the key. -/
lemma path_of_aliasKey {src : Source} {m einfo kinfo : NodeInfo} {kname : Option String}
    {value : Option Node} {before after : List Node}
    (h : (mapping m (before ++ mappingEntry einfo (some (reference kinfo kname)) value ::
      after)).ExtendsPath src (anchorsOf [] ended)) (hanchor : kinfo.anchor = none) :
    einfo.path = m.path ++ "." ++ keySegment src
      (anchorsOf [] (ended ++ before.flatMap endings)) (.reference kinfo kname) := by
  have hplace : (before ++ mappingEntry einfo (some (reference kinfo kname)) value ::
      after)[before.length]? = some (mappingEntry einfo (some (reference kinfo kname)) value) := by
    simp
  obtain ⟨path, k, v, hentry, hpath, -⟩ := h _ _ hplace
  cases hentry
  -- the key itself carries no anchor
  have hkey : ∀ a, (reference kinfo kname).anchorsAfter a = a := fun a => by
    rw [anchorsAfter, info, hanchor, children, anchorsAfterAll_nil]
    rfl
  rwa [List.take_left, hkey, anchorsAfterAll_eq fun n _ => anchorsAfter_eq n,
    ← anchorsOf_append] at hpath

end Node

/-- **Alias keys.** In every document of a parsed text, an alias that is a key adds to the path of
its mapping what the last node with its anchor gives, among the nodes of the document that have
ended in front of it. This is what the last of those that have begun gives, unless they stray. -/
theorem aliasKey_follows_iff {source : String} {d : Parsed} (h : parse source = .ok d) {doc : Node}
    (hdoc : doc ∈ d.documents.children) :
    ∃ dinfo body, doc = .document dinfo (some body) ∧
      ∀ {i : Nat} {m einfo kinfo : NodeInfo} {kname : Option String} {value : Option Node}
        {before after : List Node},
        body.depthFirst[i]? = some (.mapping m
          (before ++ .mappingEntry einfo (some (.reference kinfo kname)) value :: after)) →
        let place := i + (before.flatMap Node.depthFirst).length + 2
        let begun := body.depthFirst.take place
        let ended := Node.endedBefore place [body]
        body.depthFirst[place]? = some (.reference kinfo kname) ∧
          ∃ name segment, kname = some name ∧ einfo.path = m.path ++ "." ++ segment ∧
            segment = aliasSegment name (Node.lastCarrier? name ended) ∧
            (segment = aliasSegment name (Node.lastCarrier? name begun) ↔
              ∀ text, Node.Strays name begun ended text → text = "*" ++ name) := by
  obtain ⟨ls, es, rest, -, -, hstream, -, -⟩ := exists_stages_of_parse h
  obtain ⟨ds, hds, htree⟩ := Compose.stream_eq_ok hstream
  rw [htree] at hdoc
  obtain ⟨first, rest, more, body, last, hrun⟩ := Compose.exists_body_of_mem_documents hds doc hdoc
  refine ⟨_, body.value, hrun.node_eq, ?_⟩
  intro i m einfo kinfo kname value before after hm place begun ended
  have hvalued := Node.isValued_of_composed hrun.body_eq
  -- the mapping, the entry and the key are met one below the other
  obtain ⟨begun₀, ended₀, hmapping, rfl⟩ := Node.exists_meets body.value hm
  obtain ⟨begun₁, hkey, hplace⟩ : ∃ begun₁, body.value.Meets begun₁
      (ended₀ ++ before.flatMap Node.endings) (.reference kinfo kname) ∧ begun₁.length = place :=
    ⟨_, (hmapping.child rfl).head rfl, by simp [place]; omega⟩
  obtain rfl : begun₁ = begun := by rw [hkey.begun_eq, hplace]
  obtain hended : ended₀ ++ before.flatMap Node.endings = ended := by rw [hkey.ended_eq, hplace]
  have hat : body.value.depthFirst[place]? = some (.reference kinfo kname) :=
    hplace ▸ hkey.getElem?_eq
  have hvalued := Node.isValued_of_composed hrun.body_eq
  obtain ⟨hanchor, hname⟩ : (Node.reference kinfo kname).IsValued :=
    hvalued _ (List.mem_of_getElem? hat)
  obtain ⟨name, rfl⟩ := Option.isSome_iff_exists.mp hname
  refine ⟨hat, name, _, rfl, ?_, rfl, Node.aliasSegment_eq_iff (hended ▸ hkey.stands)⟩
  have hpath : body.value.path = "$" := Compose.path_of_node hrun.body_eq
  have hroutes := ((Compose.atRoutes_composed _ _).node hrun.body_eq).2
  rw [Compose.rootPath, ← hpath] at hroutes
  obtain ⟨hroutes, hpairs⟩ := (hmapping.reaches []).atRoutes hroutes
    ((Compose.paired _ _).node hrun.body_eq)
  rw [Node.path_of_aliasKey (Node.extendsPath hroutes hpairs) hanchor, hended, keySegment_anchorsOf]
  exact fun m hm => hvalued m (hkey.mem_of_mem_ended (hended ▸ hm))

/-- What a mapping with one entry consists of whose key is an alias. -/
def Node.soleAlias? : Node → Option (NodeInfo × NodeInfo × NodeInfo × Option String × Option Node)
  | .mapping m [.mappingEntry einfo (some (.reference kinfo kname)) value] =>
      some (m, einfo, kinfo, kname, value)
  | _ => none

/-- A mapping is made from what it consists of. -/
lemma Node.eq_of_soleAlias? {n : Node} {m einfo kinfo : NodeInfo} {kname : Option String}
    {value : Option Node} (h : n.soleAlias? = some (m, einfo, kinfo, kname, value)) :
    n = .mapping m [.mappingEntry einfo (some (.reference kinfo kname)) value] := by
  rw [soleAlias?.eq_def] at h
  split at h
  · cases h
    rfl
  · cases h

/-- An anchor that is defined again: the alias stands for the second scalar. -/
theorem aliasKey_follows_iff_redefined :
    ∃ d, parse "- &a s\n- &a t\n- {*a : 1}\n" = .ok d ∧
      ∃ doc ∈ d.documents.children, ∃ dinfo body m einfo kinfo value,
        doc = .document dinfo (some body) ∧
        body.depthFirst[3]? =
          some (.mapping m [.mappingEntry einfo (some (.reference kinfo (some "a"))) value]) ∧
        m.path = "$[2]" ∧ einfo.path = "$[2].t" ∧
        aliasSegment "a" (Node.lastCarrier? "a" (Node.endedBefore 5 [body])) = "t" ∧
        ∀ text, Node.Strays "a" (body.depthFirst.take 5) (Node.endedBefore 5 [body]) text →
          text = "*a" := by
  obtain ⟨d, hd, hcheck⟩ := Except.exists_ok_of_any (x := parse "- &a s\n- &a t\n- {*a : 1}\n")
    (p := fun d => (d.documents.children.flatMap Node.children).any fun body =>
      (body.depthFirst[3]?.bind Node.soleAlias?).any fun x =>
        x.1.path == "$[2]" && x.2.1.path == "$[2].t" && x.2.2.2.1 == some "a" &&
          aliasSegment "a" (Node.lastCarrier? "a" (body.depthFirst.take 5)) == "t")
    (by decide +kernel)
  obtain ⟨body, hbody, hcheck⟩ := List.any_eq_true.mp hcheck
  obtain ⟨doc, hdoc, hbody⟩ := List.mem_flatMap.mp hbody
  obtain ⟨⟨m, einfo, kinfo, kname, value⟩, hsole, hcheck⟩ := (Option.any_eq_true _ _).mp hcheck
  obtain ⟨n, hplace, hsole⟩ := Option.bind_eq_some_iff.mp hsole
  obtain rfl := Node.eq_of_soleAlias? hsole
  simp only [Bool.and_eq_true, beq_iff_eq] at hcheck
  obtain ⟨⟨⟨hm, heinfo⟩, rfl⟩, hbegun⟩ := hcheck
  obtain ⟨dinfo, body', rfl, halias⟩ := aliasKey_follows_iff hd hdoc
  obtain rfl := List.mem_singleton.mp hbody
  have hplace' : body.depthFirst[3]? = some (.mapping m ([] ++
      .mappingEntry einfo (some (.reference kinfo (some "a"))) value :: [])) := hplace
  obtain ⟨-, name, segment, hname, hpath, hended, hiff⟩ := halias hplace'
  cases hname
  obtain rfl : segment = "t" := by
    rw [hm, heinfo] at hpath
    exact (String.append_right_inj "$[2].").mp hpath.symm
  exact ⟨d, hd, _, hdoc, dinfo, body, m, einfo, kinfo, value, rfl, hplace, hm, heinfo, hended.symm,
    hiff.mp hbegun.symm⟩

/-- An alias in a mapping with its anchor stands for a scalar from in front of the mapping. -/
theorem aliasKey_enclosed :
    ∃ d, parse "- &a s\n- &a {*a : 1}\n" = .ok d ∧
      ∃ doc ∈ d.documents.children, ∃ body ∈ doc.children, ∃ m einfo kinfo value,
        body.depthFirst[2]? =
          some (.mapping m [.mappingEntry einfo (some (.reference kinfo (some "a"))) value]) ∧
        m.path = "$[1]" ∧ einfo.path = "$[1].s" ∧
        aliasSegment "a" (Node.lastCarrier? "a" (body.depthFirst.take 4)) = "*a" := by
  obtain ⟨d, hd, hcheck⟩ := Except.exists_ok_of_any (x := parse "- &a s\n- &a {*a : 1}\n")
    (p := fun d => (d.documents.children.flatMap Node.children).any fun body =>
      (body.depthFirst[2]?.bind Node.soleAlias?).any fun x =>
        x.1.path == "$[1]" && x.2.1.path == "$[1].s" && x.2.2.2.1 == some "a" &&
          aliasSegment "a" (Node.lastCarrier? "a" (body.depthFirst.take 4)) == "*a")
    (by decide +kernel)
  obtain ⟨body, hbody, hcheck⟩ := List.any_eq_true.mp hcheck
  obtain ⟨doc, hdoc, hbody⟩ := List.mem_flatMap.mp hbody
  obtain ⟨⟨m, einfo, kinfo, kname, value⟩, hsole, hcheck⟩ := (Option.any_eq_true _ _).mp hcheck
  obtain ⟨n, hplace, hsole⟩ := Option.bind_eq_some_iff.mp hsole
  obtain rfl := Node.eq_of_soleAlias? hsole
  simp only [Bool.and_eq_true, beq_iff_eq] at hcheck
  obtain ⟨⟨⟨hm, heinfo⟩, rfl⟩, hbegun⟩ := hcheck
  exact ⟨d, hd, doc, hdoc, body, hbody, m, einfo, kinfo, value, hplace, hm, heinfo, hbegun⟩

end YamlNavigator
