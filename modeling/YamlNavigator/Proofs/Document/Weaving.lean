import YamlNavigator.Proofs.Document.Spanning

/-!
Composed trees, how they begin, and the units that they span.

* `Compose.Weaves`, `Compose.WeavesValue`: a node that was read from units, with its beginning, and
  the value of an entry with its colon;
* `Compose.woven_of_composes`: what a section of the grammar is composed to was read from the units
  that the section takes, by induction;
* `Compose.documents_settle`: all nodes of the bodies of documents settle;
* `exists_settled_of_parse`: the same for the texts that are accepted.
-/

namespace YamlNavigator

open Yaml Grammar

namespace Compose

variable {src : Source} {pre ps mid mid' us back : List (Lexeme × Token)} {u : Lexeme × Token}
variable {v : Node} {path : String} {accepts : Content → Bool} {anchor tag : Option String}
variable {e : Event} {stop : Nat} {flow : Bool}

/-! ### Units around nodes -/

/-- Units with content of their own take text. -/
lemma isEmpty_eq_false (hL : IsStream (src.units.map Prod.fst)) (hu : u ∈ src.units)
    (hpoint : u.1.content.isPoint = false) (hkey : u.1.content ≠ .key) : u.1.isEmpty = false := by
  have hsound := hL.isSound u.1 (List.mem_map_of_mem hu)
  rw [Lexeme.IsSound, if_neg (by simp [hpoint]), if_neg hkey] at hsound
  simpa [Lexeme.isEmpty] using hsound

/-- A unit that leads to an item or a key is no property; if it is not of the content that
introduces such nodes, it takes text and is no indicator. -/
lemma lead_of_leads (hL : IsStream (src.units.map Prod.fst)) (hu : u ∈ src.units) {content : Content}
    (h : leadsItem flow u.1.content = true ∧ content = .blockEntry ∨
      leadsKey flow u.1.content = true ∧ content = .key) : u.1.isProperty = false ∧
        (u.1.content = content ∨ u.1.isIndicator = false ∧ u.1.isEmpty = false) := by
  have htext := isEmpty_eq_false hL hu
  rw [Lexeme.isProperty, Lexeme.isIndicator]
  rcases h with ⟨h, rfl⟩ | ⟨h, rfl⟩ <;> revert h htext <;> cases u.1.content <;>
    simp +contextual [leadsItem, leadsKey, Content.isPoint]

/-- A unit around the contents of a collection leads to none of its children: it is no indicator and
no property, and if the collection is a block, it takes no text. -/
lemma frame_of_frames (hL : IsStream (src.units.map Prod.fst)) (hu : u ∈ src.units)
    (h : (Section.items flow).frames u.1.content = true ∨
      (Section.entries flow).frames u.1.content = true) : u.1.isIndicator = false ∧
        u.1.isProperty = false ∧ (flow = false → u.1.isEmpty = true) := by
  have hsound := hL.isSound u.1 (List.mem_map_of_mem hu)
  have hempty : u.1.content.isPoint = true → u.1.isEmpty = true := by
    intro hpoint
    rw [Lexeme.IsSound, if_pos hpoint] at hsound
    simp [Lexeme.isEmpty, hsound]
  rw [Lexeme.isProperty, Lexeme.isIndicator]
  rcases h with h | h <;> revert h hempty <;> cases u.1.content <;> cases flow <;>
    simp [Section.frames, Content.isPoint]

/-! ### Nodes and how they begin -/

/-- A node that was read from the units `mid`, with its beginning. It is no entry. -/
structure Weaves (src : Source) (pre mid back : List (Lexeme × Token)) (v : Node) : Prop where
  kind : v.kind ≠ .mappingEntry
  spread : Spread src pre mid back v
  stands : Stands src pre (mid ++ back) v

/-- What a node carries is looked up from the units that its event starts with. -/
lemma lookups_of_info (hL : IsStream (src.units.map Prod.fst))
    (hunits : src.units = pre ++ (ps ++ u :: us))
    (hstart : e.start = (front ((ps ++ u :: us).map Prod.fst)).start)
    (hinfo : v.info = nodeInfo src accepts path anchor tag e stop) :
    (∀ w ∈ pre, w.1.stop.index ≤ v.start) ∧ (∀ w ∈ ps ++ u :: us, v.start ≤ w.1.start.index) ∧
      v.info.properties = src.propertyTokens anchor tag v.start ∧
        v.token = src.definingToken? accepts v.start e.stop.index := by
  have hv : v.start = (front ((ps ++ u :: us).map Prod.fst)).start.index := by
    rw [Node.start, hinfo, nodeInfo, hstart]
  obtain ⟨hpre, hus⟩ := cut_front hL hunits (by simp)
  rw [← hv] at hpre hus
  refine ⟨hpre, hus, ?_, ?_⟩
  · rw [Node.start, hinfo, nodeInfo]
  · rw [Node.token, Node.start, hinfo, nodeInfo]

/-- A node that is defined by a unit behind its properties begins with them. -/
lemma stands_of_unit (hL : IsStream (src.units.map Prod.fst))
    (hunits : src.units = pre ++ (ps ++ u :: us)) (hprops : Announces (ps.map Prod.fst) anchor tag)
    (hselects : Selects accepts) (hu : accepts u.1.content = true)
    (hle : u.1.stop.index ≤ e.stop.index)
    (hstart : e.start = (front ((ps ++ u :: us).map Prod.fst)).start)
    (hinfo : v.info = nodeInfo src accepts path anchor tag e stop) :
    Stands src pre (ps ++ u :: us) v ∧ Bears src pre ps (u :: us) v := by
  obtain ⟨hpre, hus, hproperties, htoken⟩ := lookups_of_info hL hunits hstart hinfo
  have hclear : Clear ((u :: us).map Prod.fst) := (hselects.content hu).1
  exact ⟨⟨hunits, hpre, hus, .unit hprops hselects hu hle hproperties htoken⟩,
    .of_announces hL hunits hpre hus hprops hclear hproperties⟩

/-- To the children of a node without children leads nothing. -/
lemma led_of_children_eq_nil (hleaf : v.children = []) : Led src v := by
  intro before c content hrole
  cases hrole <;> simp [Node.children] at hleaf

/-- A node without children spans the units that it was read from: its properties, and others behind
them. -/
lemma spread_leaf (hL : IsStream (src.units.map Prod.fst))
    (hstands : Stands src pre (ps ++ mid ++ back) v) (hbears : Bears src pre ps (mid ++ back) v)
    (hmid : ∀ u ∈ mid, u.1.isProperty = false) (hleaf : v.children = []) (hshaped : Shaped v)
    (hle : v.start ≤ v.stop) (hback : ∀ u ∈ back, v.stop ≤ u.1.start.index)
    (hspan : ∀ u ∈ ps ++ mid, u.1.stop.index ≤ v.stop) : Spread src pre (ps ++ mid) back v := by
  refine Spread.of_children hL hstands.units hstands.before hle hback (fun u hu _ => hspan u hu)
    hbears (led_of_children_eq_nil hleaf) hshaped (by simp [hleaf]) ?_
  rw [hleaf]
  exact .nil hmid

/-- A node without children that stops with a unit was read from the units up to it. -/
lemma weaves_leaf (hL : IsStream (src.units.map Prod.fst)) (hmid : mid' ++ [u] = ps ++ mid)
    (hstands : Stands src pre (ps ++ mid ++ back) v) (hbears : Bears src pre ps (mid ++ back) v)
    (hprop : ∀ u ∈ mid, u.1.isProperty = false) (hend : v.stop = u.1.stop.index)
    (hleaf : v.children = []) (hshaped : Shaped v) (hkind : v.kind ≠ .mappingEntry) :
    Weaves src pre (ps ++ mid) back v := by
  have hsplit : src.units = (pre ++ mid') ++ u :: back := by
    rw [hstands.units, ← hmid]
    simp
  have hsound := (hL.isSound u.1 (List.mem_map_of_mem (by simp [hsplit]))).start_le
  have hspan : ∀ w ∈ ps ++ mid, w.1.stop.index ≤ v.stop := by
    intro w hw
    rw [← hmid] at hw
    rcases List.mem_append.mp hw with hw | hw
    · obtain ⟨xs, ys, rfl⟩ := List.append_of_mem hw
      have hwu := stop_le_of_mem hL (v := u)
        (show src.units = (pre ++ xs) ++ w :: (ys ++ u :: back) by simp [hsplit]) (by simp)
      omega
    · rw [List.mem_singleton.mp hw]
      exact Nat.le_of_eq hend.symm
  have hle : v.start ≤ v.stop := by
    have hbehind := hstands.behind u (by rw [← hmid]; simp)
    omega
  have hback : ∀ w ∈ back, v.stop ≤ w.1.start.index := by
    intro w hw
    rw [hend]
    exact stop_le_of_mem hL hsplit hw
  exact ⟨hkind, spread_leaf hL hstands hbears hprop hleaf hshaped hle hback hspan, hstands⟩

/-- A scalar or an alias was read from its properties and its unit. -/
lemma weaves_unit (hL : IsStream (src.units.map Prod.fst))
    (hunits : src.units = pre ++ (ps ++ u :: back)) (hprops : Announces (ps.map Prod.fst) anchor tag)
    (hselects : Selects accepts) (hu : accepts u.1.content = true)
    (hstart : e.start = (front ((ps ++ u :: back).map Prod.fst)).start)
    (hstop : e.stop = u.1.stop) (hinfo : v.info = nodeInfo src accepts path anchor tag e e.stop.index)
    (hleaf : v.children = []) (hshaped : Shaped v) (hkind : v.kind ≠ .mappingEntry) :
    Weaves src pre (ps ++ [u]) back v := by
  obtain ⟨hstands, hbears⟩ := stands_of_unit hL hunits hprops hselects hu
    (Nat.le_of_eq (by rw [hstop])) hstart hinfo
  rw [List.append_cons] at hstands
  have hend : v.stop = u.1.stop.index := by rw [Node.stop, hinfo, nodeInfo, hstop]
  have hprop : ∀ w ∈ [u], w.1.isProperty = false := by simpa using (hselects.content hu).1
  exact weaves_leaf hL rfl hstands hbears hprop hend hleaf hshaped hkind

/-- A scalar without text was read from its properties. -/
lemma weaves_bare (hL : IsStream (src.units.map Prod.fst))
    (hunits : src.units = pre ++ (ps ++ u :: back))
    (hprops : Announces ((ps ++ [u]).map Prod.fst) anchor tag) (hclear : Clear (back.map Prod.fst))
    (hstart : e.start = (front ((ps ++ u :: back).map Prod.fst)).start)
    (hstop : e.stop = u.1.stop)
    (hinfo : v.info = nodeInfo src isScalarUnit path anchor tag e e.stop.index)
    (hleaf : v.children = []) (hshaped : Shaped v) (hkind : v.kind ≠ .mappingEntry) :
    Weaves src pre (ps ++ [u]) back v := by
  obtain ⟨hpre, hus, hproperties, htoken⟩ := lookups_of_info hL hunits hstart hinfo
  rw [hstop] at htoken
  have hend : v.stop = u.1.stop.index := by rw [Node.stop, hinfo, nodeInfo, hstop]
  have hstands : Stands src pre (ps ++ [u] ++ [] ++ back) v := by
    rw [List.append_nil, ← List.append_cons]
    exact ⟨hunits, hpre, hus, .bare hprops hproperties htoken⟩
  rw [List.append_cons] at hunits hus
  have hbears : Bears src pre (ps ++ [u]) ([] ++ back) v :=
    .of_announces hL hunits hpre hus hprops hclear hproperties
  have hweaves := weaves_leaf hL (List.append_nil _).symm hstands hbears (by simp) hend hleaf hshaped
    hkind
  rwa [List.append_nil] at hweaves

/-- A scalar that is not written was read from no units. -/
lemma spread_empty (hL : IsStream (src.units.map Prod.fst)) {m : Mark} {value : Option String}
    (hunits : src.units = pre ++ us)
    (hcut : CutAt (src.units.map Prod.fst) m.index (us.map Prod.fst))
    (hv : v = .scalar (nodeInfo src isScalarUnit path none none (emptyScalar m) m.index) value) :
    Stands src pre us v ∧ Spread src pre [] us v ∧ IsBlank src v := by
  have hsplit : src.units.map Prod.fst = pre.map Prod.fst ++ us.map Prod.fst := by
    rw [hunits, List.map_append]
  have hpre : ∀ u ∈ pre, u.1.stop.index ≤ m.index := fun u hu =>
    hcut.before _ hsplit u.1 (List.mem_map_of_mem hu)
  have hus : ∀ u ∈ us, m.index ≤ u.1.start.index := fun u hu =>
    hcut.after u.1 (List.mem_map_of_mem hu)
  subst hv
  have hblank : IsBlank src (.scalar (nodeInfo src isScalarUnit path none none (emptyScalar m)
      m.index) value) := ⟨rfl, rfl⟩
  have hstands : Stands src pre ([] ++ us) (.scalar (nodeInfo src isScalarUnit path none none
      (emptyScalar m) m.index) value) := ⟨hunits, hpre, hus, .blank hblank⟩
  have hspread : Spread src pre ([] ++ []) us (.scalar (nodeInfo src isScalarUnit path none none
      (emptyScalar m) m.index) value) :=
    spread_leaf hL hstands (.none rfl rfl) (by simp) rfl trivial (Nat.le_refl _) hus (by simp)
  exact ⟨hstands, hspread, hblank⟩

/-! ### Collections -/

/-- The unit in front of an entry leads to its key. -/
def IsKeyOf (entry key : Node) : Prop :=
  ∃ info value, entry = .mappingEntry info (some key) value

/-- The items of a sequence have their role there. -/
lemma roles_sequence {info : NodeInfo} {nodes : List Node} : ∀ before x content,
    Role (.sequence info nodes) before x content → content = .blockEntry ∧
      ∃ w after, nodes = before ++ w :: after ∧ w = x
  | _, _, _, .item => ⟨rfl, _, _, rfl, rfl⟩

/-- The keys of the entries of a mapping have their role there. -/
lemma roles_mapping {info : NodeInfo} {nodes : List Node} : ∀ before x content,
    Role (.mapping info nodes) before x content → content = .key ∧
      ∃ w after, nodes = before ++ w :: after ∧ IsKeyOf w x
  | _, _, _, .key => ⟨rfl, _, _, rfl, _, _, rfl⟩

/-- A collection that is defined by its first unit was read from its properties and the units of its
children. -/
lemma weaves_collection {content : Content} {heads : Node → Node → Prop} {c : Contents}
    (hL : IsStream (src.units.map Prod.fst)) (hunits : src.units = pre ++ (ps ++ u :: (mid ++ back)))
    (hprops : Announces (ps.map Prod.fst) anchor tag) (hselects : Selects accepts)
    (hu : accepts u.1.content = true) (hle : u.1.stop.index ≤ e.stop.index)
    (hstart : e.start = (front ((ps ++ u :: (mid ++ back)).map Prod.fst)).start)
    (h : Filled src flow content heads (pre ++ ps) (u :: mid) back c.nodes c.stop)
    (hinfo : v.info = nodeInfo src accepts path anchor tag e (collectionStop flow c))
    (hchildren : v.children = c.nodes) (hshaped : Shaped v) (hkind : v.kind ≠ .mappingEntry)
    (hroles : ∀ before x k, Role v before x k → k = content ∧
      ∃ w after, c.nodes = before ++ w :: after ∧ heads w x) :
    Weaves src pre (ps ++ u :: mid) back v := by
  obtain ⟨hstands, hbears⟩ := stands_of_unit hL hunits hprops hselects hu hle hstart hinfo
  have hstands : Stands src pre (ps ++ u :: mid ++ back) v := by simpa using hstands
  have hstop : v.stop = collectionStop flow c := by rw [Node.stop, hinfo, nodeInfo]
  exact ⟨hkind, h.spread hL hstands hbears (by simp) hstop hchildren hroles hshaped, hstands⟩

/-- A pair begins with the mark of its key, behind the bracket or the comma that leads to it. -/
lemma weaves_pair {c : Contents} {lead key : Lexeme × Token}
    (hL : IsStream (src.units.map Prod.fst))
    (hunits : src.units = (pre ++ [lead]) ++ key :: (mid ++ back))
    (hlead : leadsItem true lead.1.content = true) (hkey : key.1.content = .key)
    (h : Filled src true .key IsKeyOf (pre ++ [lead]) (key :: mid) back c.nodes c.stop)
    (hentries : ∀ e ∈ c.nodes, e.kind = .mappingEntry)
    (hv : v = .mapping (nodeInfo src isMappingUnit path none none
      ⟨.mappingStart none none true, key.1.start, key.1.stop⟩ (collectionStop true c)) c.nodes) :
    Weaves src (pre ++ [lead]) (key :: mid) back v := by
  subst hv
  obtain ⟨hpre, hus⟩ := cut_front hL hunits (by simp)
  have hstands : Stands src (pre ++ [lead]) (key :: (mid ++ back)) (.mapping (nodeInfo src
      isMappingUnit path none none ⟨.mappingStart none none true, key.1.start, key.1.stop⟩
      (collectionStop true c)) c.nodes) := ⟨hunits, hpre, hus, .pair hlead hkey rfl rfl⟩
  refine ⟨by simp [Node.kind], ?_, hstands⟩
  show Spread src (pre ++ [lead]) ([] ++ (key :: mid)) back _
  exact Filled.spread hL hstands (.none rfl rfl) (by simp) (by simpa using h) rfl rfl roles_mapping
    hentries

/-! ### Trees from their units -/

/-- The value of an entry that was read from the units `mid`: it begins behind its colon, or it is
not written. It is no entry. -/
structure WeavesValue (src : Source) (pre mid back : List (Lexeme × Token)) (v : Node) : Prop where
  kind : v.kind ≠ .mappingEntry
  spread : Spread src pre mid back v
  stands : (∃ lead us, mid = lead :: us ∧ lead.1.content = .value ∧
    Stands src (pre ++ [lead]) (us ++ back) v) ∨ mid = [] ∧ Stands src pre back v ∧ IsBlank src v

/-- How what a section of the grammar is composed to was read from the units `mid`. -/
def WovenBy (src : Source) (pre mid back : List (Lexeme × Token)) : Section → Contents → Prop
  | .node, c => ∀ v ∈ c.nodes, Weaves src pre mid back v
  | .value, c => ∀ v ∈ c.nodes, WeavesValue src pre mid back v
  | .items flow, c => (∀ v ∈ c.nodes, v.kind ≠ .mappingEntry) ∧
      Filled src flow .blockEntry Eq pre mid back c.nodes c.stop
  | .entries flow, c => (∀ v ∈ c.nodes, v.kind = .mappingEntry) ∧
      Filled src flow .key IsKeyOf pre mid back c.nodes c.stop

/-- A unit around the contents of a collection may stand in front. -/
lemma WovenBy.frame {s : Section} {c : Contents} (hL : IsStream (src.units.map Prod.fst))
    (hu : u ∈ src.units) (hframes : s.frames u.1.content = true)
    (h : WovenBy src (pre ++ [u]) mid back s c) : WovenBy src pre (u :: mid) back s c := by
  cases s with
  | node => cases hframes
  | value => cases hframes
  | items flow =>
      obtain ⟨hind, hprop, hempty⟩ := frame_of_frames hL hu (.inl hframes)
      exact ⟨h.1, h.2.frame hind hprop hempty⟩
  | entries flow =>
      obtain ⟨hind, hprop, hempty⟩ := frame_of_frames hL hu (.inr hframes)
      exact ⟨h.1, h.2.frame hind hprop hempty⟩

/-- The end of a collection. -/
lemma filled_end {content : Content} {heads : Node → Node → Prop} {m : Mark}
    (hunits : src.units = pre ++ back)
    (hcut : CutAt (src.units.map Prod.fst) m.index (back.map Prod.fst)) :
    Filled src flow content heads pre [] back [] m.index := by
  have hsplit : src.units.map Prod.fst = pre.map Prod.fst ++ back.map Prod.fst := by
    rw [hunits, List.map_append]
  exact Filled.nil hunits (fun u hu => hcut.before _ hsplit u.1 (List.mem_map_of_mem hu))
    fun u hu => hcut.after u.1 (List.mem_map_of_mem hu)

/-- An item behind the unit that leads to it, and the items behind that. -/
lemma woven_item {lead : Lexeme × Token} {c : Contents} (hL : IsStream (src.units.map Prod.fst))
    (hlead : lead ∈ src.units) (hleads : leadsItem flow lead.1.content = true)
    (hnode : Weaves src (pre ++ [lead]) mid (mid' ++ back) v)
    (hmore : WovenBy src (pre ++ [lead] ++ mid) mid' back (.items flow) c) :
    WovenBy src pre (lead :: (mid ++ mid')) back (.items flow) ⟨v :: c.nodes, c.stop⟩ := by
  obtain ⟨hprop, hcontent⟩ := lead_of_leads hL hlead (.inl ⟨hleads, rfl⟩)
  refine ⟨List.forall_mem_cons.mpr ⟨hnode.kind, hmore.1⟩,
    hmore.2.cons hprop hcontent hnode.spread ?_⟩
  rintro c rfl
  exact hnode.stands

/-- An entry behind the unit that leads to its key, and the entries behind it. -/
lemma woven_entry {lead : Lexeme × Token} {mid'' : List (Lexeme × Token)} {target : String}
    {key value : Node} {c : Contents} (hL : IsStream (src.units.map Prod.fst))
    (hlead : lead ∈ src.units) (hleads : leadsKey flow lead.1.content = true)
    (hkey : Weaves src (pre ++ [lead]) mid (mid' ++ (mid'' ++ back)) key)
    (hvalue : WeavesValue src (pre ++ [lead] ++ mid) mid' (mid'' ++ back) value)
    (hmore : WovenBy src (pre ++ [lead] ++ mid ++ mid') mid'' back (.entries flow) c)
    (f : String → String) :
    WovenBy src pre (lead :: (mid ++ mid' ++ mid'')) back (.entries flow)
      ⟨.entryOf target (key.mapPaths f) value :: c.nodes, c.stop⟩ := by
  obtain ⟨hprop, hcontent⟩ := lead_of_leads hL hlead (.inr ⟨hleads, rfl⟩)
  have hkind : (key.mapPaths f).kind ≠ .mappingEntry := by
    rw [Node.kind_mapPaths]
    exact hkey.kind
  have hentry : Spread src (pre ++ [lead]) (mid ++ mid') (mid'' ++ back)
      (.entryOf target (key.mapPaths f) value) :=
    spread_entryOf hL (hkey.spread.mapPaths _) hkind hvalue.spread hvalue.kind hvalue.stands
  obtain ⟨hkinds, hfilled⟩ := hmore
  rw [List.append_assoc (pre ++ [lead])] at hfilled
  refine ⟨List.forall_mem_cons.mpr ⟨rfl, hkinds⟩, hfilled.cons hprop hcontent hentry ?_⟩
  rintro c ⟨info, w, heq⟩
  rw [Node.entryOf] at heq
  cases heq
  rw [List.append_assoc]
  exact hkey.stands.mapPaths _

/-- **Composed trees were read from their units.** -/
theorem woven_of_composes (hL : IsStream (src.units.map Prod.fst)) {s : Section} {c : Contents}
    (h : Composes src s mid back c) :
    ∀ pre, src.units = pre ++ (mid ++ back) → WovenBy src pre mid back s c := by
  induction h with
  | @reference u back _ _ hu =>
      intro pre hunits
      refine List.forall_mem_singleton.mpr ?_
      show Weaves src pre ([] ++ [u]) back _
      exact weaves_unit hL hunits announces_nil (.inl rfl) (by rw [hu]; rfl) rfl rfl rfl rfl trivial
        (by simp [Node.kind])
  | scalar props hu =>
      intro pre hunits
      exact List.forall_mem_singleton.mpr (weaves_unit hL (by simpa using hunits) props
        (.inr (.inl rfl)) (by rw [hu]; rfl) rfl rfl rfl rfl trivial (by simp [Node.kind]))
  | bare props hclear =>
      intro pre hunits
      exact List.forall_mem_singleton.mpr (weaves_bare hL (by simpa using hunits) props hclear rfl rfl
        rfl rfl trivial (by simp [Node.kind]))
  | empty hcut =>
      intro pre hunits
      obtain ⟨hstands, hspread, -⟩ := spread_empty hL hunits hcut rfl
      exact List.forall_mem_singleton.mpr ⟨by simp [Node.kind], hspread, hstands⟩
  | missing hcut =>
      intro pre hunits
      obtain ⟨hstands, hspread, hblank⟩ := spread_empty hL hunits hcut rfl
      exact List.forall_mem_singleton.mpr
        ⟨by simp [Node.kind], hspread, .inr ⟨rfl, hstands, hblank⟩⟩
  | @sequence ps _ _ _ _ _ _ _ _ _ props opens hle _ ih =>
      intro pre hunits
      obtain ⟨hkinds, hfilled⟩ := ih (pre ++ ps) (by simpa using hunits)
      exact List.forall_mem_singleton.mpr (weaves_collection hL (by simpa using hunits) props
        (.inr (.inr (.inl rfl))) opens hle rfl hfilled rfl rfl hkinds (by simp [Node.kind])
        roles_sequence)
  | @mapping ps _ _ _ _ _ _ _ _ _ props opens hle _ ih =>
      intro pre hunits
      obtain ⟨hkinds, hfilled⟩ := ih (pre ++ ps) (by simpa using hunits)
      exact List.forall_mem_singleton.mpr (weaves_collection hL (by simpa using hunits) props
        (.inr (.inr (.inr rfl))) opens hle rfl hfilled rfl rfl hkinds (by simp [Node.kind])
        roles_mapping)
  | @valued u mid _ _ hu _ ih =>
      intro pre hunits v hv
      have hweaves := ih (pre ++ [u]) (by simpa using hunits) v hv
      have hprop : u.1.isProperty = false := by rw [Lexeme.isProperty, hu]
      exact ⟨hweaves.kind, hweaves.spread.behind hprop, .inl ⟨u, mid, rfl, hu, hweaves.stands⟩⟩
  | @frame _ u _ _ _ hframes _ ih =>
      intro pre hunits
      exact (ih (pre ++ [u]) (by simpa using hunits)).frame hL (by simp [hunits]) hframes
  | itemsEnd hcut | entriesEnd hcut =>
      exact fun pre hunits => ⟨by simp, filled_end hunits hcut⟩
  | @item _ lead mid _ _ v _ leads _ _ ih ih' =>
      intro pre hunits
      have hnode := ih (pre ++ [lead]) (by simpa using hunits) v (List.mem_singleton_self v)
      have hmore := ih' (pre ++ [lead] ++ mid) (by simpa using hunits)
      exact woven_item hL (by simp [hunits]) leads hnode hmore
  | @pair lead key mid _ _ _ _ _ leads hkey _ _ ih ih' =>
      intro pre hunits
      obtain ⟨hkinds, hfilled⟩ := ih (pre ++ [lead]) (by simpa using hunits)
      have hmore := ih' (pre ++ [lead] ++ key :: mid) (by simpa using hunits)
      refine woven_item hL (by simp [hunits]) leads ?_ hmore
      exact weaves_pair hL (by simpa using hunits) leads hkey hfilled hkinds rfl
  | @entry _ lead mid mid' _ _ _ _ k v _ leads _ _ _ ih ih' ih'' =>
      intro pre hunits
      have hkey := ih (pre ++ [lead]) (by simpa using hunits) k (List.mem_singleton_self k)
      have hvalue := ih' (pre ++ [lead] ++ mid) (by simpa using hunits) v (List.mem_singleton_self v)
      have hmore := ih'' (pre ++ [lead] ++ mid ++ mid') (by simpa using hunits)
      exact woven_entry hL (by simp [hunits]) leads hkey hvalue hmore _

/-! ### Documents -/

/-- Structure is written for no node. -/
lemma names_of_isOwned (h : ∀ u ∈ us, u.1.content.isOwned = false) : Names src us [] := by
  refine .nil fun u hu => ?_
  have howned := h u hu
  rw [Lexeme.isProperty]
  revert howned
  cases u.1.content <;> simp [Content.isOwned]

/-- Nothing can be asked for at the path of a body. -/
lemma sitsAt_rootPath (hv : v.path = rootPath) (q : String) : v.sitsAt q = false := by
  have hroot : Path.canonical rootPath = "" := by decide +kernel
  have htrim : Path.canonical (String.ofList (Path.trimLast rootPath.toList)) = "" := by
    decide +kernel
  have hempty : v.queryPath = "" := by
    unfold Node.queryPath
    split
    · next info nodes =>
        have hinfo : info.path = rootPath := hv
        split
        · rw [hinfo, htrim, hroot, ite_self]
        · rw [hinfo, hroot]
    · rw [hv, hroot]
  simp [Node.sitsAt, hempty]

/-- A document with its body, all of whose nodes settle. Nothing can be asked for at their places.
-/
structure HasBody (src : Source) (d body : Node) : Prop where
  eq : ∃ info, d = .document info (some body) ∧ info.path = "" ∧ info.properties = []
  path : body.path = rootPath
  kind : body.kind ≠ .mappingEntry
  settled : Settled src body

/-- The nodes of a document are the document and those of its body. -/
lemma HasBody.mem_depthFirst {d body : Node} (h : HasBody src d body) (hv : v ∈ d.depthFirst) :
    v = d ∨ v ∈ body.depthFirst := by
  obtain ⟨info, rfl, -, -⟩ := h.eq
  rw [Node.depthFirst_eq] at hv
  simpa [Node.children] using hv

/-- **The documents of a stream settle.** Every composed document has a body all of whose nodes
settle, and the properties that are written are written for nodes of the documents. -/
theorem documents_settle (hL : IsStream (src.units.map Prod.fst)) {first : Bool} {ds : List Node}
    (h : ComposesDocuments src first us ds) : ∀ pre, src.units = pre ++ us →
      (∀ d ∈ ds, ∃ body, HasBody src d body) ∧ Names src us ds := by
  induction h with
  | done hus =>
      exact fun _ _ => ⟨by simp, names_of_isOwned fun u hu => by rw [hus u hu]; rfl⟩
  | @closed _ u us _ hu _ ih =>
      intro pre hunits
      obtain ⟨hbodies, hnames⟩ := ih (pre ++ [u]) (by simpa using hunits)
      exact ⟨hbodies, hnames.skip (by rw [Lexeme.isProperty, hu])⟩
  | @document _ heads mid closers back e last body ds opens _ node path closes _ _ ih =>
      intro pre hunits
      have hweaves := woven_of_composes hL node (pre ++ heads) (by simpa using hunits) body
        (List.mem_singleton_self body)
      obtain ⟨hbodies, hnames⟩ :=
        ih (pre ++ (heads ++ (mid ++ closers))) (by simpa using hunits)
      have hheads : Names src heads [] := names_of_isOwned fun u hu =>
        opens.isOwned u.1 (List.mem_map_of_mem hu)
      have hclosers : Names src closers [] := names_of_isOwned fun u hu => by
        rw [closes u hu]
        rfl
      have hbears : Bears src pre [] (heads ++ (mid ++ closers) ++ back)
        (.documentOf (some body) (documentToken src e last body) e.start.index last.stop.index) :=
        .none rfl rfl
      have hdocument := Names.parent hbears (by simp)
        (hheads.append (hweaves.spread.names.append hclosers))
      refine ⟨List.forall_mem_cons.mpr
        ⟨⟨body, ⟨_, rfl, rfl, rfl⟩, path, hweaves.kind, hweaves.spread.settled⟩, hbodies⟩, ?_⟩
      simpa using hdocument.append hnames

end Compose

/-! ### Texts that are accepted -/

/-- The tree of a text that is accepted is the set of its documents, which settle. -/
theorem exists_settled_of_parse {source : String} {d : Parsed} (h : parse source = .ok d) :
    ∃ ls ds, Lexeme.scan source.toList = .ok ls ∧
      d.tokens = Stream.ofTiles (LineTable.ofText source.toList) (tiles source.toList ls) ∧
      d.documents = .documentSetOf ds ∧
      (∀ c ∈ ds, ∃ body, Compose.HasBody ⟨source.toList, unitsOf source.toList ls⟩ c body) ∧
      Names ⟨source.toList, unitsOf source.toList ls⟩ (unitsOf source.toList ls) ds := by
  obtain ⟨ls, ds, w, us, hls, htokens, htree, hL, hunits, hw, hdocuments⟩ :=
    exists_composes_of_parse h
  obtain ⟨hbodies, hnames⟩ := Compose.documents_settle hL hdocuments [w] hunits
  refine ⟨ls, ds, hls, htokens, htree, hbodies, ?_⟩
  -- no property stands in front of the start of the stream
  have hall := hnames.skip (show w.1.isProperty = false by rw [Lexeme.isProperty, hw])
  rwa [← hunits] at hall

end YamlNavigator
