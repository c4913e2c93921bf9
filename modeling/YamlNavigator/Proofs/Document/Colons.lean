import YamlNavigator.Proofs.Document.Markers

/-!
Colons and the entries that they divide.

* `Divides`: a colon stands between the key and the value of an entry; directly in front of it stand
  the units of the key, behind one that leads there;
* `Keyed`: every colon among some units divides an entry of some trees;
* `Compose.keyed_of_composes`: what a section of the grammar is composed to is keyed by the colons
  among the units that the section takes, by induction;
* `Compose.keyed_of_documents`, `exists_keyed_of_parse`: the same for the documents of a stream, and
  for the texts that are accepted.
-/

namespace YamlNavigator

open Yaml Grammar

/-- The colon `w` divides the entry `n`: behind it stands the value, and directly in front of it the
units of the key, which the key spans, behind one that leads to the key. None of these is a
directive or a marker. -/
def Divides (src : Source) (w : Lexeme × Token) (n : Node) : Prop :=
  ∃ info key value pre lead ks back, n = .mappingEntry info (some key) (some value) ∧
    src.units = pre ++ lead :: (ks ++ w :: back) ∧ lead.1.content.isOwned = false ∧
    (∀ u ∈ lead :: ks, u.1.content.isPreface = false) ∧
    (∀ u ∈ ks, key.start ≤ u.1.start.index ∧ (u.1.isEmpty = false → u.1.stop.index ≤ key.stop)) ∧
    w.1.stop.index ≤ value.start

/-- Every colon among the units `us` divides an entry of the trees `vs`. -/
def Keyed (src : Source) (us : List (Lexeme × Token)) (vs : List Node) : Prop :=
  ∀ w ∈ us, w.1.content = .value → ∃ n ∈ vs.flatMap Node.depthFirst, Divides src w n

variable {src : Source} {us us' : List (Lexeme × Token)} {u w : Lexeme × Token} {v : Node}
variable {vs vs' : List Node}

/-- An entry is divided at every path. -/
lemma Divides.mapPaths {n : Node} (h : Divides src w n) (f : String → String) :
    Divides src w (n.mapPaths f) := by
  obtain ⟨info, key, value, pre, lead, ks, back, rfl, hunits, hlead, hpreface, hks, hvalue⟩ := h
  exact ⟨{ info with path := f info.path }, key.mapPaths f, value.mapPaths f, pre, lead, ks, back,
    rfl, hunits, hlead, hpreface, by simpa using hks, by simpa using hvalue⟩

/-- In front of a colon stands the last unit of the key, which the key spans if it belongs to a
node, or the unit that leads to the key. -/
lemma Divides.exists_before {n : Node} (h : Divides src w n) :
    ∃ info key value front u back, n = .mappingEntry info (some key) (some value) ∧
      src.units = front ++ u :: w :: back ∧ u.1.content.isPreface = false ∧
      (u.1.content.isOwned = true → u.1.isEmpty = false →
        key.start ≤ u.1.start.index ∧ u.1.stop.index ≤ key.stop) ∧
      w.1.stop.index ≤ value.start := by
  obtain ⟨info, key, value, pre, lead, ks, back, rfl, hunits, hlead, hpreface, hks, hvalue⟩ := h
  rcases List.eq_nil_or_concat ks with rfl | ⟨ks, u, rfl⟩
  · refine ⟨info, key, value, pre, lead, back, rfl, hunits, hpreface lead List.mem_cons_self,
      fun howned => ?_, hvalue⟩
    rw [hlead] at howned
    cases howned
  · rw [List.concat_eq_append] at hunits hpreface hks
    refine ⟨info, key, value, pre ++ lead :: ks, u, back, rfl, by simp [hunits],
      hpreface u (by simp), fun _ htext => ?_, hvalue⟩
    obtain ⟨hstart, hstop⟩ := hks u (by simp)
    exact ⟨hstart, hstop htext⟩

namespace Keyed

/-- Without colons nothing is divided. -/
lemma of_ne (h : ∀ u ∈ us, u.1.content ≠ .value) : Keyed src us vs :=
  fun w hw hvalue => absurd hvalue (h w hw)

lemma append (h : Keyed src us vs) (h' : Keyed src us' vs') :
    Keyed src (us ++ us') (vs ++ vs') := by
  intro w hw hvalue
  rw [List.flatMap_append]
  rcases List.mem_append.mp hw with hw | hw
  · obtain ⟨n, hn, hdivides⟩ := h w hw hvalue
    exact ⟨n, List.mem_append_left _ hn, hdivides⟩
  · obtain ⟨n, hn, hdivides⟩ := h' w hw hvalue
    exact ⟨n, List.mem_append_right _ hn, hdivides⟩

/-- Units that are no colons may stand in front. -/
lemma skipAll (hus : ∀ u ∈ us, u.1.content ≠ .value) (h : Keyed src us' vs) :
    Keyed src (us ++ us') vs :=
  append (of_ne hus : Keyed src us []) h

/-- A unit that is no colon may stand in front. -/
lemma skip (hu : u.1.content ≠ .value) (h : Keyed src us vs) : Keyed src (u :: us) vs := by
  have hskipped : Keyed src [u] [] := of_ne (by simpa using hu)
  exact hskipped.append h

/-- The entries below a node are those of its tree. -/
lemma parent (h : Keyed src us v.children) : Keyed src us [v] := by
  intro w hw hvalue
  obtain ⟨n, hn, hdivides⟩ := h w hw hvalue
  exact ⟨n, Node.mem_flatMap_cons.mpr (.inr (.inl hn)), hdivides⟩

/-- A tree may be moved to other paths. -/
lemma mapPaths (h : Keyed src us [v]) (f : String → String) : Keyed src us [v.mapPaths f] := by
  intro w hw hvalue
  obtain ⟨n, hn, hdivides⟩ := h w hw hvalue
  rw [List.flatMap_singleton] at hn ⊢
  rw [Node.depthFirst_mapPaths]
  exact ⟨n.mapPaths f, List.mem_map_of_mem hn, hdivides.mapPaths f⟩

end Keyed

/-! ### Units that are no colons -/

/-- Properties are no colons. -/
lemma ne_value_of_announces {ps : List (Lexeme × Token)} {anchor tag : Option String}
    (h : Announces (ps.map Prod.fst) anchor tag) : ∀ u ∈ ps, u.1.content ≠ .value := by
  intro u hu heq
  have hprop := h.isProperty u.1 (List.mem_map_of_mem hu)
  rw [Lexeme.isProperty, heq] at hprop
  cases hprop

/-- The units around the contents of a collection are no colons. -/
lemma ne_value_of_frames {s : Section} {c : Content} (h : s.frames c = true) : c ≠ .value := by
  rintro rfl
  cases s <;> cases h

/-- The units that lead to an item or to a key are no colons. -/
lemma ne_value_of_leads {flow : Bool} {c : Content}
    (h : leadsItem flow c = true ∨ leadsKey flow c = true) : c ≠ .value := by
  rintro rfl
  rcases h with h | h <;> cases h

namespace Compose

variable {pre mid mid' back : List (Lexeme × Token)} {flow : Bool}

/-- The colon between a key and its value divides their entry. -/
lemma divides_entryOf {info : NodeInfo} {key value : Node} {lead : Lexeme × Token}
    (hleads : leadsKey flow lead.1.content = true)
    (hpreface : ∀ u ∈ mid, u.1.content.isPreface = false)
    (hkey : Weaves src (pre ++ [lead]) mid (w :: back) key)
    (hvalue : w.1.stop.index ≤ value.start) (f : String → String) :
    Divides src w (.mappingEntry info (some (key.mapPaths f)) (some value)) := by
  refine ⟨info, key.mapPaths f, value, pre, lead, mid, back, rfl, ?_, isOwned_of_leadsKey hleads,
    List.forall_mem_cons.mpr ⟨isPreface_of_leads (.inr hleads), hpreface⟩, fun u hu => ?_, hvalue⟩
  · rw [hkey.spread.units, List.append_assoc, List.singleton_append]
  · rw [Node.start_mapPaths, Node.stop_mapPaths]
    exact ⟨hkey.stands.behind u (List.mem_append_left _ hu), hkey.spread.le_stop u hu⟩

/-- An entry is keyed by the colons of its key and of its value and by the one between them. -/
lemma keyed_entryOf {lead : Lexeme × Token} {target : String} {key value : Node}
    (hleads : leadsKey flow lead.1.content = true)
    (hpreface : ∀ u ∈ mid, u.1.content.isPreface = false)
    (hkey : Weaves src (pre ++ [lead]) mid (mid' ++ back) key)
    (hvalue : WeavesValue src (pre ++ [lead] ++ mid) mid' back value)
    (hkeyed : Keyed src mid [key]) (hkeyed' : Keyed src mid'.tail [value]) (f : String → String) :
    Keyed src (mid ++ mid') [.entryOf target (key.mapPaths f) value] := by
  have hparts : Keyed src (mid ++ mid'.tail) [.entryOf target (key.mapPaths f) value] :=
    .parent ((hkeyed.mapPaths f).append hkeyed')
  obtain ⟨colon, us, rfl, -, hstands⟩ | ⟨rfl, -⟩ := hvalue.stands
  · intro w hw hcolon
    rcases List.mem_append.mp hw with hw | hw
    · exact hparts w (List.mem_append_left _ hw) hcolon
    rcases List.mem_cons.mp hw with rfl | hw
    · have hdivides : Divides src w (.entryOf target (key.mapPaths f) value) :=
        divides_entryOf hleads hpreface hkey (hstands.before w (by simp)) f
      exact ⟨_, Node.mem_flatMap_cons.mpr (.inl rfl), hdivides⟩
    · exact hparts w (List.mem_append_right _ hw) hcolon
  · exact hparts

/-- How what a section of the grammar is composed to is keyed by the units `mid`: the colon in front
of a value divides the entry around it. -/
def KeyedBy (src : Source) (mid : List (Lexeme × Token)) (s : Section) (c : Contents) : Prop :=
  match s with
  | .value => Keyed src mid.tail c.nodes
  | .node | .items _ | .entries _ => Keyed src mid c.nodes

/-- **Colons divide entries.** Each colon among the units that a section of the grammar takes
divides an entry of what the section is composed to. -/
theorem keyed_of_composes (hL : IsStream (src.units.map Prod.fst)) {s : Section} {c : Contents}
    (h : Composes src s mid back c) :
    ∀ pre, src.units = pre ++ (mid ++ back) → KeyedBy src mid s c := by
  induction h with
  | reference hu => exact fun _ _ => .of_ne (by simp [hu])
  | scalar props hu =>
      exact fun _ _ => .of_ne
        (List.forall_mem_append.mpr ⟨ne_value_of_announces props, by simp [hu]⟩)
  | bare props _ => exact fun _ _ => .of_ne (ne_value_of_announces props)
  | empty _ | missing _ | itemsEnd _ | entriesEnd _ => exact fun _ _ => .of_ne (by simp)
  | @sequence ps _ _ _ _ _ _ _ _ _ props _ _ _ ih | @mapping ps _ _ _ _ _ _ _ _ _ props _ _ _ ih =>
      intro pre hunits
      exact .skipAll (ne_value_of_announces props) (.parent (ih (pre ++ ps) (by simpa using hunits)))
  | @valued u _ _ _ _ _ ih => exact fun pre hunits => ih (pre ++ [u]) (by simpa using hunits)
  | @frame s u _ _ _ hframes _ ih =>
      intro pre hunits
      have hkeyed := ih (pre ++ [u]) (by simpa using hunits)
      have hu := ne_value_of_frames hframes
      cases s with
      | node | value => cases hframes
      | items _ | entries _ => exact hkeyed.skip hu
  | @item _ lead mid _ _ _ _ leads _ _ ih ih' =>
      intro pre hunits
      have hnode := ih (pre ++ [lead]) (by simpa using hunits)
      have hmore := ih' (pre ++ [lead] ++ mid) (by simpa using hunits)
      exact .skip (ne_value_of_leads (.inl leads)) (hnode.append hmore)
  | @pair lead key mid _ _ _ _ _ leads _ _ _ ih ih' =>
      intro pre hunits
      have hentries : Keyed src (key :: mid) _ := ih (pre ++ [lead]) (by simpa using hunits)
      have hmore := ih' (pre ++ [lead] ++ key :: mid) (by simpa using hunits)
      exact .skip (ne_value_of_leads (.inl leads)) (.append (.parent hentries) hmore)
  | @entry _ lead mid mid' _ _ _ _ k v _ leads key value _ ih ih' ih'' =>
      intro pre hunits
      have hkey := woven_of_composes hL key (pre ++ [lead]) (by simpa using hunits) k
        (List.mem_singleton_self k)
      have hvalue := woven_of_composes hL value (pre ++ [lead] ++ mid) (by simpa using hunits) v
        (List.mem_singleton_self v)
      have hkeyed := ih (pre ++ [lead]) (by simpa using hunits)
      have hkeyed' := ih' (pre ++ [lead] ++ mid) (by simpa using hunits)
      have hmore := ih'' (pre ++ [lead] ++ mid ++ mid') (by simpa using hunits)
      exact .skip (ne_value_of_leads (.inr leads)) (.append
        (keyed_entryOf leads key.isPreface hkey hvalue hkeyed hkeyed' _) hmore)

/-! ### Documents -/

/-- **The documents of a stream are keyed by its colons.** -/
theorem keyed_of_documents (hL : IsStream (src.units.map Prod.fst)) {first : Bool} {ds : List Node}
    (h : ComposesDocuments src first us ds) : ∀ pre, src.units = pre ++ us → Keyed src us ds := by
  induction h with
  | done hus => exact fun _ _ => .of_ne fun u hu => by simp [hus u hu]
  | @closed _ u _ _ hu _ ih =>
      intro pre hunits
      exact .skip (by simp [hu]) (ih (pre ++ [u]) (by simpa using hunits))
  | @document _ heads mid closers back e last body ds opens _ node _ closes _ _ ih =>
      intro pre hunits
      have hheads : ∀ u ∈ heads, u.1.content ≠ .value := fun u hu heq => by
        have hpreface := opens.isPreface u.1 (List.mem_map_of_mem hu)
        rw [heq] at hpreface
        cases hpreface
      have hbody : Keyed src mid [body] :=
        keyed_of_composes hL node (pre ++ heads) (by simpa using hunits)
      have hmore := ih (pre ++ heads ++ mid ++ closers) (by simpa using hunits)
      have hrest : Keyed src (closers ++ back) _ := hmore.skipAll fun u hu => by simp [closes u hu]
      have hdocument : Keyed src mid [.documentOf (some body) (documentToken src e last body)
          e.start.index last.stop.index] := .parent hbody
      exact .skipAll hheads (hdocument.append hrest)

end Compose

/-! ### Texts that are accepted -/

/-- **Every colon of a text that is accepted divides an entry.** -/
theorem exists_keyed_of_parse {source : String} {d : Parsed} (h : parse source = .ok d) :
    ∃ ls, Lexeme.scan source.toList = .ok ls ∧
      d.tokens = Stream.ofTiles (LineTable.ofText source.toList) (tiles source.toList ls) ∧
      Keyed ⟨source.toList, unitsOf source.toList ls⟩ (unitsOf source.toList ls) [d.documents] := by
  obtain ⟨ls, ds, w, us, hls, htokens, htree, hL, hunits, hw, hdocuments⟩ :=
    exists_composes_of_parse h
  have hkeyed := (Compose.keyed_of_documents hL hdocuments [w] hunits).skip
    (show w.1.content ≠ .value by simp [hw])
  refine ⟨ls, hls, htokens, .parent ?_⟩
  rw [htree]
  rwa [← hunits] at hkeyed

end YamlNavigator
