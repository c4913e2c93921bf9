import YamlNavigator.Proofs.Document.Composition
import YamlNavigator.Proofs.Document.Tiles
import YamlNavigator.Proofs.Yaml.Division
import YamlNavigator.Proofs.Yaml.Failing
import YamlNavigator.Proofs.Yaml.Refusing

/-!
Every text is read or refused.

* `Compose.Completes`, `completes_of_derives`: the events of a section of the grammar are composed,
  whatever stands behind them;
* `exists_stream_of_ofLexemes`: the events of a stream describe a tree;
* `parse_answers`: a text is read, or refused in a way that is reported, or holds a number that is
  too large.

The bound on nested calls is met by two calls for each event, but for the first one.
-/

namespace YamlNavigator

open Yaml Text

namespace Compose

open Yaml.Grammar

variable {src : Source} {L ls rest : List Lexeme} {es : List Event}

/-- The events begin with one that a node can begin with. -/
def StartsNode (es : List Event) : Prop :=
  ∃ e more, es = e :: more ∧ e.step ≠ .sequenceEnd ∧ e.step ≠ .mappingEnd

/-- The events of a section of the grammar are composed as what the section is, and nothing of what
stands behind them is taken. -/
def Completes (src : Source) (s : Section) (es : List Event) : Prop :=
  0 < es.length ∧
    match s.part with
    | .node => StartsNode es ∧ ∀ n a path behind, 2 * es.length ≤ n + 1 →
        ∃ c, node src n a path (es ++ behind) = .ok c ∧ c.rest = behind
    | .items => ∀ n a path index behind, 2 * es.length ≤ n + 1 →
        ∃ c, items src n a path index (es ++ behind) = .ok c ∧ c.rest = behind
    | .entries => ∀ n a path behind, 2 * es.length ≤ n + 1 →
        ∃ c, entries src n a path (es ++ behind) = .ok c ∧ c.rest = behind

/-- An event that is a node by itself. -/
lemma completes_single {e : Event}
    (h : (∃ name, e.step = .reference name) ∨ ∃ value anchor tag, e.step = .scalar value anchor tag) :
    Completes src .node [e] := by
  refine ⟨Nat.one_pos, ⟨e, [], rfl, ?_, ?_⟩, fun n a path behind hn => ?_⟩
  · rcases h with ⟨name, h⟩ | ⟨value, anchor, tag, h⟩ <;> simp [h]
  · rcases h with ⟨name, h⟩ | ⟨value, anchor, tag, h⟩ <;> simp [h]
  · obtain ⟨k, rfl⟩ : ∃ k, n = k + 1 := Nat.exists_eq_succ_of_ne_zero (by simp at hn; omega)
    rw [List.singleton_append, node]
    rcases h with ⟨name, h⟩ | ⟨value, anchor, tag, h⟩ <;> rw [h] <;> exact ⟨_, rfl, rfl⟩

/-- A sequence is composed from its first event and its items. -/
lemma completes_sequence {e : Event} {flow flow' : Bool} {anchor tag : Option String}
    (h : e.step = .sequenceStart anchor tag flow) (hitems : Completes src (.items flow') es) :
    Completes src .node (e :: es) := by
  refine ⟨Nat.succ_pos _, ⟨e, es, rfl, by simp [h], by simp [h]⟩, fun n a path behind hn => ?_⟩
  obtain ⟨k, rfl⟩ : ∃ k, n = k + 1 := Nat.exists_eq_succ_of_ne_zero (by simp at hn; omega)
  rw [List.length_cons] at hn
  obtain ⟨c, hc, hrest⟩ := hitems.2 k a path 0 behind (by omega)
  rw [List.cons_append, node, h]
  dsimp only
  rw [hc]
  exact ⟨_, rfl, hrest⟩

/-- A mapping is composed from its first event and its entries. -/
lemma completes_mapping {e : Event} {flow flow' : Bool} {anchor tag : Option String}
    (h : e.step = .mappingStart anchor tag flow) (hentries : Completes src (.entries flow') es) :
    Completes src .node (e :: es) := by
  refine ⟨Nat.succ_pos _, ⟨e, es, rfl, by simp [h], by simp [h]⟩, fun n a path behind hn => ?_⟩
  obtain ⟨k, rfl⟩ : ∃ k, n = k + 1 := Nat.exists_eq_succ_of_ne_zero (by simp at hn; omega)
  rw [List.length_cons] at hn
  obtain ⟨c, hc, hrest⟩ := hentries.2 k a path behind (by omega)
  rw [List.cons_append, node, h]
  dsimp only
  rw [hc]
  exact ⟨_, rfl, hrest⟩

/-- The end of a sequence. -/
lemma completes_itemsEnd {start stop : Mark} {flow : Bool} :
    Completes src (.items flow) [⟨.sequenceEnd, start, stop⟩] := by
  refine ⟨Nat.one_pos, fun n a path index behind hn => ?_⟩
  obtain ⟨k, rfl⟩ : ∃ k, n = k + 1 := Nat.exists_eq_succ_of_ne_zero (by simp at hn; omega)
  rw [List.singleton_append, items, if_pos rfl]
  exact ⟨_, rfl, rfl⟩

/-- The end of a mapping. -/
lemma completes_entriesEnd {start stop : Mark} {flow : Bool} :
    Completes src (.entries flow) [⟨.mappingEnd, start, stop⟩] := by
  refine ⟨Nat.one_pos, fun n a path behind hn => ?_⟩
  obtain ⟨k, rfl⟩ : ∃ k, n = k + 1 := Nat.exists_eq_succ_of_ne_zero (by simp at hn; omega)
  rw [List.singleton_append, entries, if_pos rfl]
  exact ⟨_, rfl, rfl⟩

/-- An item and the items behind it. -/
lemma completes_item {es' : List Event} {flow : Bool} (hnode : Completes src .node es)
    (hmore : Completes src (.items flow) es') : Completes src (.items flow) (es ++ es') := by
  obtain ⟨hpos, ⟨e, more, rfl, hend, -⟩, hnode⟩ := hnode
  refine ⟨by simp, fun n a path index behind hn => ?_⟩
  have hpos' := hmore.1
  obtain ⟨k, rfl⟩ : ∃ k, n = k + 1 := Nat.exists_eq_succ_of_ne_zero (by simp at hn; omega)
  rw [List.length_append] at hn
  obtain ⟨item, hitem, hrest⟩ :=
    hnode k a (itemPath path index) (es' ++ behind) (by omega)
  obtain ⟨c, hc, hbehind⟩ := hmore.2 k item.anchors path (index + 1) behind (by omega)
  rw [← hrest] at hc
  rw [List.append_assoc, List.cons_append, items, if_neg hend]
  exact ⟨_, Except.bind_eq_ok_iff.mpr ⟨item, hitem, Except.bind_eq_ok_iff.mpr ⟨c, hc, rfl⟩⟩,
    hbehind⟩

/-- An entry and the entries behind it. -/
lemma completes_entry {es' es'' : List Event} {flow : Bool} (hkey : Completes src .node es)
    (hvalue : Completes src .node es') (hmore : Completes src (.entries flow) es'') :
    Completes src (.entries flow) (es ++ (es' ++ es'')) := by
  obtain ⟨hpos, ⟨e, more, rfl, -, hend⟩, hkey⟩ := hkey
  refine ⟨by simp, fun n a path behind hn => ?_⟩
  have hpos' := hvalue.1
  have hpos'' := hmore.1
  obtain ⟨k, rfl⟩ : ∃ k, n = k + 1 := Nat.exists_eq_succ_of_ne_zero (by simp at hn; omega)
  rw [List.length_append, List.length_append] at hn
  obtain ⟨key, hkey, hrest⟩ := hkey k a path (es' ++ (es'' ++ behind)) (by omega)
  obtain ⟨value, hvalue, hrest'⟩ := hvalue.2.2 k key.anchors
    (entryPath path (keySegment src key.anchors key.value)) (es'' ++ behind) (by omega)
  obtain ⟨c, hc, hbehind⟩ := hmore.2 k value.anchors path behind (by omega)
  rw [← hrest] at hvalue
  rw [← hrest'] at hc
  rw [List.append_assoc, List.append_assoc, List.cons_append, entries, if_neg hend]
  exact ⟨_, Except.bind_eq_ok_iff.mpr ⟨key, hkey, Except.bind_eq_ok_iff.mpr ⟨value, hvalue,
    Except.bind_eq_ok_iff.mpr ⟨c, hc, rfl⟩⟩⟩, hbehind⟩

/-- The events of a section are composed. -/
theorem completes_of_derives (src : Source) {s : Section} (h : Derives L s ls es rest) :
    Completes src s es := by
  induction h with
  | reference h => exact completes_single (.inl ⟨_, rfl⟩)
  | scalar props h => exact completes_single (.inr ⟨_, _, _, rfl⟩)
  | bare props h => exact completes_single (.inr ⟨_, _, _, rfl⟩)
  | empty h => exact completes_single (.inr ⟨_, _, _, rfl⟩)
  | sequence props opens stop_eq taken r ih => exact completes_sequence rfl ih
  | mapping props opens stop_eq taken r ih => exact completes_mapping rfl ih
  | valued h node ih => exact ih
  | missing h => exact completes_single (.inr ⟨_, _, _, rfl⟩)
  | frame h r ih => exact ih
  | itemsEnd closes h => exact completes_itemsEnd
  | itemsStop behind h => exact completes_itemsEnd
  | item leads node more ihNode ihMore => exact completes_item ihNode ihMore
  | pair leads h taken r more ihEntries ihMore =>
      exact completes_item (completes_mapping rfl ihEntries) ihMore
  | entriesEnd closes h => exact completes_entriesEnd
  | entriesStop behind h => exact completes_entriesEnd
  | entry leads key value more ihKey ihValue ihMore => exact completes_entry ihKey ihValue ihMore

/-! ### Documents -/

/-- The events of documents are composed. -/
lemma exists_documents (src : Source) {n : Nat} {first : Bool}
    (h : DerivesDocuments L first ls es) (hn : es.length ≤ n) :
    ∃ ds behind, documents src n es = .ok (ds, behind) := by
  induction h generalizing n with
  | done _ =>
      obtain ⟨k, rfl⟩ : ∃ k, n = k + 1 := Nat.exists_eq_succ_of_ne_zero (by simp at hn; omega)
      exact ⟨[], [], by rw [documents, if_pos rfl]⟩
  | closed h more ih => exact ih hn
  | @document _ heads ks closers rest e last body es opens _ node _ _ _ _ more ih =>
      obtain ⟨k, rfl⟩ : ∃ k, n = k + 1 := Nat.exists_eq_succ_of_ne_zero (by simp at hn; omega)
      rw [List.length_cons, List.length_append, List.length_cons] at hn
      obtain ⟨ds, behind, hds⟩ := ih (n := k) (by omega)
      obtain ⟨c, hc, hrest⟩ := (completes_of_derives src node).2.2
        (bound (body ++ last :: es)) [] rootPath (last :: es) (by simp [bound]; omega)
      rw [documents, if_neg opens.step_ne]
      exact ⟨_, behind, Except.bind_eq_ok_iff.mpr ⟨(_, es), document_of_body hc hrest,
        Except.bind_eq_ok_iff.mpr ⟨(ds, behind), hds, rfl⟩⟩⟩

/-- **The events of a stream describe a tree.** -/
theorem exists_stream_of_ofLexemes (src : Source) (hL : IsStream L)
    (h : Event.ofLexemes L = .ok es) :
    ∃ tree behind, stream src es = .ok (tree, behind) := by
  obtain ⟨e, es', rfl, hderives⟩ := derivesDocuments_of_ofLexemes hL h
  obtain ⟨ds, behind, hds⟩ := exists_documents src hderives
    (show es'.length ≤ bound (e :: es') by simp [bound]; omega)
  exact ⟨.documentSetOf ds, behind, by rw [stream, List.tail_cons, hds]; rfl⟩

end Compose

/-- A text that is not read fails in one of its first two stages, with a problem or with what stands
in it. -/
lemma exists_failure_of_parse {source : String} {e : ParseError} (h : parse source = .error e) :
    ∃ f, e = .failure f ∧ f.IsFounded source.toList := by
  rcases Except.bind_eq_error_iff.mp h with h | ⟨ls, hls, h⟩
  · obtain ⟨f, hf, rfl⟩ := Except.mapError_eq_error_iff.mp h
    exact ⟨f, rfl, isFounded_scan hf⟩
  have hcover := cover_of_scan (Except.mapError_eq_ok_iff.mp hls)
  rcases Except.bind_eq_error_iff.mp h with h | ⟨es, hes, h⟩
  · obtain ⟨f, hf, rfl⟩ := Except.mapError_eq_error_iff.mp h
    obtain ⟨cause, mark, rfl⟩ := refuses_ofLexemes ls f hf
    exact ⟨_, rfl, trivial⟩
  · -- the events describe a tree, so nothing is left that can fail
    obtain ⟨tree, rest, htree⟩ := Compose.exists_stream_of_ofLexemes
      ⟨source.toList, unitsOf source.toList ls⟩ (Grammar.isStream_of_cover hcover)
      (Except.mapError_eq_ok_iff.mp hes)
    rcases Except.bind_eq_error_iff.mp h with h | ⟨⟨tree', rest'⟩, -, h⟩
    · obtain ⟨fault, hfault, -⟩ := Except.mapError_eq_error_iff.mp h
      rw [unitsOf] at htree
      rw [htree] at hfault
      cases hfault
    · cases h

/-- A text is read, or refused in a way that is reported, or it holds a number that is too large. -/
lemma parse_cases (source : String) : (∃ d, parse source = .ok d) ∨
    (∃ e, parse source = .error e ∧ e.isReported = true) ∨
    ∃ f, parse source = .error (.failure f) ∧ (ParseError.failure f).isReported = false ∧
      f.IsFounded source.toList := by
  cases h : parse source with
  | ok d => exact .inl ⟨d, rfl⟩
  | error e =>
      obtain ⟨f, rfl, hf⟩ := exists_failure_of_parse h
      cases hreported : (ParseError.failure f).isReported with
      | true => exact .inr (.inl ⟨_, rfl, hreported⟩)
      | false => exact .inr (.inr ⟨f, rfl, hreported, hf⟩)

/-- **Every text is read, or refused in a way that is reported, or holds a number that is too
large.** A number is an escape of eight digits above all code points, or one in the version of a
directive with more digits than are accepted. No other failure of the stages of reading arises, and
bytes fail besides only where they are not UTF-8. -/
theorem parse_answers (source : String) (bytes : List UInt8) :
    ((∃ d, parse source = .ok d) ∨
      (∃ e, parse source = .error e ∧ e.isReported = true) ∨
      ∃ f, parse source = .error (.failure f) ∧ (ParseError.failure f).isReported = false ∧
        f.IsFounded source.toList) ∧
    ((∃ d, parseBytes bytes = .ok d) ∨
      (∃ e, parseBytes bytes = .error e ∧ e.isReported = true) ∨
      ∃ s f, Utf8.decode bytes = .ok s ∧ parseBytes bytes = .error (.failure f) ∧
        (ParseError.failure f).isReported = false ∧ f.IsFounded s) := by
  refine ⟨parse_cases source, ?_⟩
  rw [parseBytes]
  cases hdecode : Utf8.decode bytes with
  | error fault => exact .inr (.inl ⟨_, rfl, rfl⟩)
  | ok s =>
      rcases parse_cases (String.ofList s) with h | h | ⟨f, hf, hreported, hfounded⟩
      · exact .inl h
      · exact .inr (.inl h)
      · rw [String.toList_ofList] at hfounded
        exact .inr (.inr ⟨s, f, rfl, hf, hreported, hfounded⟩)

/-- An escape for a number above all code points is refused, and this is not reported. -/
theorem parse_largeEscape : ∃ f, parse "\"\\U00110000\"" = .error (.failure f) ∧
    (ParseError.failure f).isReported = false := by
  have hscan : Lexeme.scan "\"\\U00110000\"".toList = .error .escapeNoCodePoint := by
    decide +kernel
  exact ⟨.escapeNoCodePoint, by rw [parse, hscan]; rfl, rfl⟩

end YamlNavigator
