import YamlNavigator.Proofs.Document.Leading

/-!
The nodes that hyphens, question marks and colons introduce.

* `Lexeme.isIndicator`, `Role`, `Introduces`: an indicator introduces an item, a key or a value if
  it is written in the node above, behind what stands there in front of it;
* `Led`: the child of a node stands directly behind the unit that leads to it, or nothing is written
  for it;
* `Led.stands_of_introduces`, `Leads.introduces`: the nodes that an indicator introduces stand
  directly behind it, and it introduces a node that it leads to;
* `Shaped`, `HasRole`: every node below the root of a tree has a role, or it is an entry and its key
  has one.
-/

namespace YamlNavigator

open Yaml Grammar

namespace Yaml

/-- Hyphens, question marks and colons. The mark of a key is a question mark if it takes text. -/
def Lexeme.isIndicator (l : Lexeme) : Bool :=
  (match l.content with
    | .blockEntry | .key | .value => true
    | _ => false) && !l.isEmpty

end Yaml

/-! ### Roles -/

/-- The role of a node below another: what stands in front of it there, and the content of the units
that can introduce it. -/
inductive Role : Node → List Node → Node → Content → Prop
  | item {info : NodeInfo} {before behind : List Node} {c : Node} :
      Role (.sequence info (before ++ c :: behind)) before c .blockEntry
  | key {info entry : NodeInfo} {before behind : List Node} {c : Node} {value : Option Node} :
      Role (.mapping info (before ++ .mappingEntry entry (some c) value :: behind)) before c .key
  | value {info : NodeInfo} {key c : Node} :
      Role (.mappingEntry info (some key) (some c)) [key] c .value

/-- An indicator introduces a node of a tree: it is written in the node above, behind what stands
there in front of the node, and before the node. -/
def Introduces (tree : Node) (l : Lexeme) (c : Node) : Prop :=
  l.isIndicator = true ∧ ∃ p ∈ tree.depthFirst, ∃ before, Role p before c l.content ∧
    p.start ≤ l.start.index ∧ (∀ b ∈ before, b.stop ≤ l.start.index) ∧ l.stop.index ≤ c.start

namespace Yaml.Lexeme

variable {l : Lexeme}

/-- Indicators take text. -/
lemma isEmpty_of_isIndicator (h : l.isIndicator = true) : l.isEmpty = false := by
  simpa using (Bool.and_eq_true_iff.mp h).2

lemma lt_of_isIndicator (h : l.isIndicator = true) : l.start.index < l.stop.index := by
  simpa [isEmpty] using isEmpty_of_isIndicator h

/-- Indicators are no properties. -/
lemma isProperty_of_isIndicator (h : l.isIndicator = true) : l.isProperty = false := by
  rw [isIndicator] at h
  rw [isProperty]
  revert h
  cases l.content <;> simp

/-- Indicators lead to no item of a flow sequence. -/
lemma leadsItem_of_isIndicator (h : l.isIndicator = true) : leadsItem true l.content = false := by
  rw [isIndicator] at h
  revert h
  cases l.content <;> simp [leadsItem]

end Yaml.Lexeme

/-- The indicators among some units lie in front of the node above, or in what stands there in front
of the node. -/
def Passed (p : Node) (before : List Node) (us : List (Lexeme × Token)) : Prop :=
  ∀ u ∈ us, u.1.isIndicator = true →
    u.1.stop.index ≤ p.start ∨ ∃ b ∈ before, u.1.stop.index ≤ b.stop

/-- The unit `lead` leads to a node in a role: it stands directly in front of the node, and either
it is of the content that introduces nodes in this role, or it is a bracket, a brace or a comma. -/
structure Leads (src : Source) (p : Node) (before : List Node) (c : Node) (content : Content)
    (front : List (Lexeme × Token)) (lead : Lexeme × Token) (us : List (Lexeme × Token)) :
    Prop where
  stands : Stands src (front ++ [lead]) us c
  start_le : p.start ≤ lead.1.start.index
  stop_le : ∀ b ∈ before, b.stop ≤ lead.1.start.index
  content : lead.1.content = content ∨ lead.1.isIndicator = false ∧ lead.1.isEmpty = false
  passed : Passed p before front

/-- To every child of the node leads a unit, or nothing is written for it. -/
def Led (src : Source) (p : Node) : Prop :=
  ∀ before c content, Role p before c content →
    (∃ front lead us, Leads src p before c content front lead us) ∨
      ∃ pre us, Stands src pre us c ∧ IsBlank src c ∧ Passed p before pre

/-- The roles in a changed tree are those of the tree. -/
lemma Role.of_mapPaths {f : String → String} {p c : Node} {before : List Node} {content : Content}
    (h : Role (p.mapPaths f) before c content) : ∃ before' c', before = before'.map (·.mapPaths f) ∧
      c = c'.mapPaths f ∧ Role p before' c' content := by
  generalize hp : p.mapPaths f = p' at h
  cases h with
  | item =>
      cases p <;> simp only [Node.mapPaths, Node.mapPathsAll_eq_map, reduceCtorEq,
        Node.sequence.injEq] at hp
      obtain ⟨xs, ys, rfl, rfl, hys⟩ := List.map_eq_append_iff.mp hp.2
      obtain ⟨y, ys, rfl, rfl, rfl⟩ := List.map_eq_cons_iff.mp hys
      exact ⟨xs, y, rfl, rfl, .item⟩
  | key =>
      cases p <;> simp only [Node.mapPaths, Node.mapPathsAll_eq_map, reduceCtorEq,
        Node.mapping.injEq] at hp
      obtain ⟨xs, ys, rfl, rfl, hys⟩ := List.map_eq_append_iff.mp hp.2
      obtain ⟨y, ys, rfl, hy, rfl⟩ := List.map_eq_cons_iff.mp hys
      cases y <;> simp only [Node.mapPaths, reduceCtorEq, Node.mappingEntry.injEq] at hy
      obtain ⟨-, hkey, -⟩ := hy
      rename_i k v
      cases k with
      | none => cases hkey
      | some k =>
          cases hkey
          exact ⟨xs, k, rfl, rfl, .key⟩
  | value =>
      cases p <;> simp only [Node.mapPaths, reduceCtorEq, Node.mappingEntry.injEq] at hp
      obtain ⟨-, hkey, hvalue⟩ := hp
      rename_i k v
      cases k with
      | none => cases hkey
      | some k =>
          cases v with
          | none => cases hvalue
          | some v =>
              cases hkey
              cases hvalue
              exact ⟨[k], v, rfl, rfl, .value⟩

namespace Led

variable {src : Source} {p tree c : Node} {l : Lexeme} {t : Token}

/-- The node may be moved to another path. -/
lemma mapPaths (h : Led src p) (f : String → String) : Led src (p.mapPaths f) := by
  intro before c content hrole
  obtain ⟨before, c, rfl, rfl, hrole'⟩ := hrole.of_mapPaths
  have hpassed : ∀ {us}, Passed p before us → Passed (p.mapPaths f) (before.map (·.mapPaths f)) us := by
    intro us hus u hu hind
    simpa using hus u hu hind
  rcases h before c content hrole' with ⟨front, lead, us, hlead⟩ | ⟨pre, us, hstands, hblank, hpre⟩
  · exact .inl ⟨front, lead, us, hlead.stands.mapPaths f, by simpa using hlead.start_le,
      by simpa using hlead.stop_le, hlead.content, hpassed hlead.passed⟩
  · exact .inr ⟨pre, us, hstands.mapPaths f,
      ⟨by simpa using hblank.properties, by simpa using hblank.token⟩, hpassed hpre⟩

/-- A node that an indicator introduces stands directly behind it. -/
theorem stands_of_introduces (hled : ∀ p ∈ tree.depthFirst, Led src p)
    (hl : (l, t) ∈ src.units) (h : Introduces tree l c) :
    ∃ front us, Stands src (front ++ [(l, t)]) us c := by
  obtain ⟨hind, p, hp, before, hrole, hstart, hstop, hle⟩ := h
  have hlt := Lexeme.lt_of_isIndicator hind
  -- the indicator is neither before what it introduces is looked for, nor behind that
  have hpassed : ∀ {us}, Passed p before us → (l, t) ∉ us := by
    intro us hus hmem
    rcases hus _ hmem hind with h | ⟨b, hb, h⟩
    · dsimp only at h
      omega
    · have := hstop b hb
      dsimp only at h
      omega
  have hbehind : ∀ {pre us}, Stands src pre us c → (l, t) ∉ us := by
    intro pre us hstands hmem
    have := hstands.behind _ hmem
    dsimp only at this
    omega
  rcases hled p hp before c l.content hrole with
    ⟨front, lead, us, hlead⟩ | ⟨pre, us, hstands, -, hpre⟩
  · rw [hlead.stands.units] at hl
    rcases List.mem_append.mp hl with hl | hl
    · rcases List.mem_append.mp hl with hl | hl
      · exact absurd hl (hpassed hlead.passed)
      · obtain rfl := List.mem_singleton.mp hl
        exact ⟨front, us, hlead.stands⟩
    · exact absurd hl (hbehind hlead.stands)
  · rw [hstands.units] at hl
    rcases List.mem_append.mp hl with hl | hl
    · exact absurd hl (hpassed hpre)
    · exact absurd hl (hbehind hstands)

end Led

/-- An indicator that leads to a node introduces it. -/
lemma Leads.introduces {src : Source} {p tree c : Node} {before : List Node} {content : Content}
    {front us : List (Lexeme × Token)} {lead : Lexeme × Token}
    (h : Leads src p before c content front lead us) (hp : p ∈ tree.depthFirst)
    (hrole : Role p before c content) (hlead : lead.1.isIndicator = true) :
    Introduces tree lead.1 c := by
  have hcontent : lead.1.content = content := by
    rcases h.content with h | ⟨h, -⟩
    · exact h
    · rw [hlead] at h
      cases h
  exact ⟨hlead, p, hp, before, hcontent ▸ hrole, h.start_le, h.stop_le,
    h.stands.before lead (by simp)⟩

/-- A unit that leads to a node takes text, or it is the mark of a key. -/
lemma Leads.content_of_isEmpty {src : Source} {p c : Node} {before : List Node} {content : Content}
    {front us : List (Lexeme × Token)} {lead : Lexeme × Token}
    (hL : IsStream (src.units.map Prod.fst)) (h : Leads src p before c content front lead us)
    (hrole : Role p before c content) (hlead : lead.1.isEmpty = true) : lead.1.content = .key := by
  have hsound := hL.isSound lead.1 (List.mem_map_of_mem (by simp [h.stands.units]))
  have hle : lead.1.stop.index ≤ lead.1.start.index := by simpa [Lexeme.isEmpty] using hlead
  rcases h.content with heq | ⟨-, htext⟩
  · rw [Lexeme.IsSound, heq] at hsound
    rw [heq]
    cases hrole with
    | key => rfl
    | item | value =>
        simp only [Content.isPoint, Bool.false_eq_true, if_false, reduceCtorEq] at hsound
        omega
  · rw [hlead] at htext
    cases htext

/-! ### Nodes that have roles -/

/-- The shape of a composed node below a document: entries stand in mappings only, and consist of a
key, whose token they show, and a value. -/
def Shaped : Node → Prop
  | .documentSet _ _ => False
  | .document _ _ => False
  | .mapping _ entries => ∀ e ∈ entries, e.kind = .mappingEntry
  | .mappingEntry info key value => ∃ k v, key = some k ∧ value = some v ∧
      k.kind ≠ .mappingEntry ∧ v.kind ≠ .mappingEntry ∧ info.token = k.token ∧ info.properties = []
  | .sequence _ items => ∀ x ∈ items, x.kind ≠ .mappingEntry
  | .scalar _ _ => True
  | .reference _ _ => True

@[simp]
lemma Node.kind_mapPaths (f : String → String) (n : Node) : (n.mapPaths f).kind = n.kind := by
  cases n <;> rfl

/-- A shaped node keeps its shape at other paths. -/
lemma Shaped.mapPaths {n : Node} (h : Shaped n) (f : String → String) : Shaped (n.mapPaths f) := by
  cases n with
  | documentSet i ds => exact h
  | document i b => exact h
  | mapping i es =>
      have hes : ∀ e ∈ es, e.kind = .mappingEntry := h
      rw [Node.mapPaths, Node.mapPathsAll_eq_map, Shaped]
      simpa using hes
  | mappingEntry i k v =>
      obtain ⟨k, v, rfl, rfl, hk, hv, htoken, hprops⟩ := h
      exact ⟨k.mapPaths f, v.mapPaths f, rfl, rfl, by simpa using hk, by simpa using hv,
        by simpa using htoken, hprops⟩
  | sequence i xs =>
      have hxs : ∀ x ∈ xs, x.kind ≠ .mappingEntry := h
      rw [Node.mapPaths, Node.mapPathsAll_eq_map, Shaped]
      simpa using hxs
  | scalar i v => trivial
  | reference i v => trivial

/-- A node of a tree has a role there, or it is an entry whose key has one. -/
def HasRole (tree v : Node) : Prop :=
  (∃ p ∈ tree.depthFirst, ∃ before content, Role p before v content) ∨
    ∃ info key value, v = .mappingEntry info (some key) value ∧
      ∃ p ∈ tree.depthFirst, ∃ before, Role p before key .key

/-- A node that has a role in a part of a tree has it in the tree. -/
lemma HasRole.mono {tree part v : Node} (h : HasRole part v) (hpart : part ∈ tree.depthFirst) :
    HasRole tree v := by
  rcases h with ⟨p, hp, hrole⟩ | ⟨info, key, value, rfl, p, hp, hrole⟩
  · exact .inl ⟨p, Node.mem_depthFirst_trans hp tree hpart, hrole⟩
  · exact .inr ⟨info, key, value, rfl, p, Node.mem_depthFirst_trans hp tree hpart, hrole⟩

/-- A child of a node belongs to its tree. -/
lemma Node.mem_depthFirst_of_mem_children {n c : Node} (h : c ∈ n.children) : c ∈ n.depthFirst := by
  rw [depthFirst_eq]
  refine List.mem_cons_of_mem n (List.mem_flatMap.mpr ⟨c, h, ?_⟩)
  rw [depthFirst_eq]
  exact List.mem_cons_self

/-- Every node of a tree but the root has a role; the key of an entry has it above that entry. -/
theorem hasRole_of_mem (n : Node) : (∀ p ∈ n.depthFirst, Shaped p) → ∀ v ∈ n.depthFirst,
    v = n ∨ HasRole n v ∨ ∃ info value, n = .mappingEntry info (some v) value := by
  induction n using Node.children_induction with
  | step n ih =>
      intro hshaped v hv
      rw [Node.depthFirst_eq] at hv
      rcases List.mem_cons.mp hv with hv | hv
      · exact .inl hv
      obtain ⟨c, hc, hv⟩ := List.mem_flatMap.mp hv
      have hcn := Node.mem_depthFirst_of_mem_children hc
      have hself : n ∈ n.depthFirst := by
        rw [Node.depthFirst_eq]
        exact List.mem_cons_self
      have hroot := hshaped n hself
      have hchild := ih c hc (fun p hp => hshaped p (Node.mem_depthFirst_trans hp n hcn)) v hv
      right
      cases n with
      | documentSet i ds => exact hroot.elim
      | document i b => exact hroot.elim
      | mapping i es =>
          left
          -- the child is an entry
          have hkind := hroot c hc
          cases c <;> simp only [Node.kind, reduceCtorEq] at hkind
          obtain ⟨k, w, rfl, rfl, -⟩ := hshaped _ hcn
          obtain ⟨before, behind, hes⟩ := List.append_of_mem (show _ ∈ es from hc)
          have hrole : Role (.mapping i es) before k .key := hes ▸ .key
          rcases hchild with rfl | hchild | ⟨info, value, heq⟩
          · exact .inr ⟨_, k, _, rfl, _, hself, before, hrole⟩
          · exact hchild.mono hcn
          · cases heq
            exact .inl ⟨_, hself, before, .key, hrole⟩
      | mappingEntry i k w =>
          obtain ⟨k, w, rfl, rfl, hk, hw, -⟩ := hroot
          rcases hchild with rfl | hchild | ⟨info, value, rfl⟩
          · simp only [Node.children, Option.toList_some, List.cons_append, List.nil_append,
              List.mem_cons, List.not_mem_nil, or_false] at hc
            rcases hc with rfl | rfl
            · exact .inr ⟨i, _, rfl⟩
            · exact .inl (.inl ⟨_, hself, [k], .value, .value⟩)
          · exact .inl (hchild.mono hcn)
          · simp only [Node.children, Option.toList_some, List.cons_append, List.nil_append,
              List.mem_cons, List.not_mem_nil, or_false] at hc
            rcases hc with rfl | rfl
            · exact absurd rfl hk
            · exact absurd rfl hw
      | sequence i xs =>
          left
          have hkind := hroot c hc
          rcases hchild with rfl | hchild | ⟨info, value, rfl⟩
          · obtain ⟨before, behind, hxs⟩ := List.append_of_mem (show v ∈ xs from hc)
            exact .inl ⟨_, hself, before, .blockEntry, hxs ▸ .item⟩
          · exact hchild.mono hcn
          · exact absurd rfl hkind
      | scalar i w => cases hc
      | reference i w => cases hc

end YamlNavigator
