import YamlNavigator.Proofs.Ansi.Faults
import YamlNavigator.Proofs.Program.Exit

/-!
What is said about styles that cannot be read.

* `Settings.IsFirstInvalid`, `Settings.exists_isFirstInvalid_iff`: the first style of the settings
  that cannot be read;
* `Printer.ofSettings_eq_error_iff`: it says why the settings make no printer;
* `Run.Complains`: a computation that ends the run with the wording of an error;
* `Program.styles_reported_iff`: such a style is reported unless it asks for a colour with a part
  that is no number, which ends the run without an exit code.
-/

namespace YamlNavigator

open Text Ansi

/-! ### The first invalid style -/

/-- The styles of categories fail as their texts do. -/
lemma Palette.ofStyles_eq_error_iff {mode : ColorMode} {styles : StyleSet} {fault : Style.Fault} :
    Palette.ofStyles mode styles = .error fault ↔
      (Category.all.map styles.get).mapM Style.ofText = .error fault := by
  rw [Palette.ofStyles, Except.bind_eq_error_iff, or_iff_left (by rintro ⟨_, -, ⟨⟩⟩),
    List.mapM_map]
  simp [Except.mapM_eq_error_iff, Except.map_eq_error_iff, Except.map_eq_ok_iff, styled]

/-- Styles whose texts can be read make a palette. -/
lemma Palette.exists_ofStyles_of_mapM {mode : ColorMode} {styles : StyleSet} {read : List Style}
    (h : (Category.all.map styles.get).mapM Style.ofText = .ok read) :
    ∃ p, Palette.ofStyles mode styles = .ok p := by
  cases hp : Palette.ofStyles mode styles with
  | ok p => exact ⟨p, rfl⟩
  | error fault =>
      rw [Palette.ofStyles_eq_error_iff, h] at hp
      cases hp

namespace Settings

variable {x : Settings} {text : String}

/-- The text is the first one of the settings that cannot be read as a style. -/
def IsFirstInvalid (x : Settings) (text : String) : Prop :=
  ∃ before after fault, x.styleTexts = before ++ text :: after ∧
    (∀ t ∈ before, ∃ s, Style.ofText t = .ok s) ∧ Style.ofText text = .error fault

/-- There is a first invalid style if and only if there is an invalid one. -/
lemma exists_isFirstInvalid_iff : (∃ text, x.IsFirstInvalid text) ↔ x.HasInvalidStyle := by
  constructor
  · rintro ⟨text, before, after, fault, heq, -, hfault⟩
    refine ⟨text, ?_, fun s hs => ?_⟩
    · rw [heq]
      exact List.mem_append_right before List.mem_cons_self
    · rw [hfault] at hs
      cases hs
  · rintro ⟨text, hmem, hinvalid⟩
    cases hfind : x.styleTexts.find? fun t => !(Style.ofText t).toBool with
    | none =>
        have hread := List.find?_eq_none.mp hfind text hmem
        obtain ⟨s, hs⟩ := Except.exists_ok_of_toBool (by simpa using hread)
        exact absurd hs (hinvalid s)
    | some first =>
        obtain ⟨hfirst, before, after, heq, hbefore⟩ := List.find?_eq_some_iff_append.mp hfind
        cases hfault : Style.ofText first with
        | ok s => simp [hfault, Except.toBool] at hfirst
        | error fault =>
            refine ⟨first, before, after, fault, heq, fun t ht => ?_, hfault⟩
            exact Except.exists_ok_of_toBool (by simpa using hbefore t ht)

/-- **The first invalid style says why settings make no printer.** -/
theorem IsFirstInvalid.exists_fault (h : x.IsFirstInvalid text) :
    ∃ fault, Style.ofText text = .error fault ∧ Printer.ofSettings x true = .error fault := by
  obtain ⟨before, after, fault, heq, hbefore, hfault⟩ := h
  refine ⟨fault, hfault, ?_⟩
  have hread : x.styleTexts.mapM Style.ofText = .error fault :=
    Except.mapM_eq_error_iff.mpr ⟨before, text, after, heq, hbefore, hfault⟩
  rw [styleTexts, List.mapM_append, List.mapM_append] at hread
  -- The plain styles are read first, then the highlighted ones, and the gutter's last.
  rcases Except.bind_eq_error_iff.mp hread with hread | ⟨palettes, hpalettes, hread⟩
  · rcases Except.bind_eq_error_iff.mp hread with hplain | ⟨plain, hplain, hread⟩
    · exact Except.bind_eq_error_iff.mpr (.inl (Palette.ofStyles_eq_error_iff.mpr hplain))
    · obtain ⟨p, hp⟩ := Palette.exists_ofStyles_of_mapM hplain
      rcases Except.bind_eq_error_iff.mp hread with hhighlighted | ⟨_, -, ⟨⟩⟩
      refine Except.bind_eq_error_iff.mpr (.inr ⟨p, hp, Except.bind_eq_error_iff.mpr (.inl ?_)⟩)
      exact Palette.ofStyles_eq_error_iff.mpr hhighlighted
  · obtain ⟨plain, hplain, hpalettes⟩ := Except.bind_eq_ok_iff.mp hpalettes
    obtain ⟨highlighted, hhighlighted, -⟩ := Except.bind_eq_ok_iff.mp hpalettes
    obtain ⟨p, hp⟩ := Palette.exists_ofStyles_of_mapM hplain
    obtain ⟨q, hq⟩ := Palette.exists_ofStyles_of_mapM hhighlighted
    rcases Except.bind_eq_error_iff.mp hread with hgutter | ⟨_, -, ⟨⟩⟩
    refine Except.bind_eq_error_iff.mpr (.inr ⟨p, hp, Except.bind_eq_error_iff.mpr
      (.inr ⟨q, hq, Except.bind_eq_error_iff.mpr (.inl ?_)⟩)⟩)
    rw [List.mapM_cons] at hgutter
    rcases Except.bind_eq_error_iff.mp hgutter with hgutter | ⟨_, -, ⟨⟩⟩
    exact Except.map_eq_error_iff.mpr hgutter

end Settings

/-! ### Computations that complain -/

namespace Run

variable {α β : Type} {m : Run α} {f : α → Run β} {a : α} {s : String}

/-- The computation ends the run with an error, prints its wording last, and prints nothing but
errors. -/
def Complains (m : Run α) (s : String) : Prop :=
  ∀ c, ∃ notes, (ExceptT.run m).run c = (.error (.code 1), { c with err := notes ++ s ++ "\n" })

/-- A refusal complains. -/
lemma complains_fail (s : String) : Complains (fail (α := α) s) s :=
  fun c => ⟨c.err, rfl⟩

/-- A computation complains behind a quiet one. -/
lemma IsQuiet.bind_complains (hm : IsQuiet m (.ok a)) (hf : Complains (f a) s) :
    Complains (m >>= f) s := by
  intro c
  obtain ⟨err, hm⟩ := hm c
  obtain ⟨notes, hf⟩ := hf { c with err }
  exact ⟨notes, by rw [run_bind, hm]; exact hf⟩

/-- Nothing goes on behind a complaint. -/
lemma Complains.stop (hm : Complains m s) (f : α → Run β) : Complains (m >>= f) s := by
  intro c
  obtain ⟨notes, hm⟩ := hm c
  exact ⟨notes, by rw [run_bind, hm]⟩

/-- A complaint has nothing to write. -/
lemma Complains.written {m : Run Unit} (encodes : Char → Bool) (hm : Complains m s) :
    Complains (Run.written encodes m) s := by
  intro c
  obtain ⟨notes, hm⟩ := hm { c with out := "" }
  exact ⟨notes, by rw [run_written, hm]; simp⟩

end Run

namespace Program

/-- What a run that complains leaves behind. -/
lemma of_complains {m : Run Unit} {s : String} (h : Run.Complains m s) (c : Console) :
    (reportOf m c).exit = .code 1 ∧ (reportOf m c).console.out = c.out ∧
      ∃ notes, (reportOf m c).console.err = notes ++ s ++ "\n" := by
  obtain ⟨notes, h⟩ := h c
  rw [reportOf, h]
  exact ⟨rfl, rfl, notes, rfl⟩

variable {x : Settings} {color : Bool} {fault : Style.Fault}

/-- Settings with an invalid style are reported where no number is behind the fault. -/
lemma complains_printer (h : Printer.ofSettings x color = .error fault)
    (hnumber : fault.number? = none) :
    Run.Complains (printer x color) s!"Error: invalid style in config: {fault.message}" := by
  rw [printer, h]
  dsimp only
  rw [hnumber]
  exact Run.complains_fail _

/-- A number behind the fault ends the run without an exit code. -/
lemma isQuiet_printer_of_number {f : Integer.Fault} (h : Printer.ofSettings x color = .error fault)
    (hnumber : fault.number? = some f) :
    Run.IsQuiet (printer x color) (.error (.crash (.style f))) := by
  rw [printer, h]
  dsimp only
  rw [hnumber]
  exact Run.isQuiet_crash _

/-- **Invalid styles.** Arguments make a request to show a document, which is read. Then its printer
is had unless colours are used and a style of the settings is invalid. The first invalid style says
why. It is reported with the code of an error, and nothing else is printed, if and only if it does
not ask for a colour with a part that is no number; otherwise the run ends without a code. -/
theorem styles_reported_iff {w : World} {known : Option Settings} {x : Settings}
    {arguments : List String} {r : Request} {source : String} {d : Parsed}
    (hr : Request.ofArguments arguments w.environment.edition = .ok r) (hx : Uses w known x)
    (hread : readInput w x r.file = .ok source) (hparse : parse source = .ok d)
    (hshown : r.suggest = false) :
    ((∃ p, Printer.ofSettings x r.color = .ok p) ↔
        ¬(r.color = true ∧ ∃ text, x.IsFirstInvalid text)) ∧
      ∀ text, r.color = true → x.IsFirstInvalid text →
        ∃ fault, Style.ofText text = .error fault ∧ Printer.ofSettings x r.color = .error fault ∧
          let report := (run w known arguments).1
          report.console.out = "" ∧
            (report.exit = .code 1 ∧ (∃ notes, report.console.err =
              notes ++ s!"Error: invalid style in config: {fault.message}" ++ "\n") ↔
                ¬Style.AsksWithoutNumber text) ∧
            ((∃ f, fault.number? = some f ∧ report.exit = .crash (.style f)) ↔
              Style.AsksWithoutNumber text) := by
  rw [Printer.exists_ofSettings_iff, Settings.exists_isFirstInvalid_iff]
  refine ⟨Iff.rfl, fun text hcolor htext => ?_⟩
  obtain ⟨fault, hfault, hprinter⟩ := htext.exists_fault
  rw [hcolor]
  refine ⟨fault, hfault, hprinter, ?_⟩
  obtain ⟨err, hrun⟩ := exists_run_eq hr hx
  rw [hrun]
  have hasks : Style.AsksWithoutNumber text ↔ ∃ f, fault.number? = some f := by
    rw [← Style.exists_number_iff]
    simp [hfault]
  rw [hasks]
  cases hnumber : fault.number? with
  | none =>
      have hanswer : Run.Complains (answer w x r)
          s!"Error: invalid style in config: {fault.message}" := by
        refine (isQuiet_content hread).bind_complains ?_
        refine (isQuiet_document hparse r.verbose).bind_complains ?_
        rw [hshown]
        refine Run.Complains.written _ (Run.Complains.stop ?_ _)
        rw [hcolor]
        exact complains_printer hprinter hnumber
      obtain ⟨hexit, hout, herr⟩ := of_complains hanswer { err }
      simp [hexit, hout, herr]
  | some f =>
      have hanswer : Run.IsQuiet (answer w x r) (.error (.crash (.style f))) := by
        refine (isQuiet_content hread).bind ?_
        refine (isQuiet_document hparse r.verbose).bind ?_
        rw [hshown]
        refine Run.IsQuiet.written (Run.IsQuiet.stop ?_ _)
        rw [hcolor]
        exact isQuiet_printer_of_number hprinter hnumber
      have hexit := exit_reportOf_of_error { err } hanswer.ends
      have hout := out_reportOf_of_error { err } hanswer
      simp [hexit, hout]

/-- A ground that is no colour is reported. -/
theorem styles_reported_iff_badGround :
    let x : Settings := { gutterStyle := "bold on gray" }
    ∃ bytes, Utf8.decode bytes = .ok "a: 1\n".toList ∧ x.IsFirstInvalid "bold on gray" ∧
      ¬Style.AsksWithoutNumber "bold on gray" ∧
        (run { disk := fun _ => .error .missing, input := bytes } (some x) []).1.exit =
          .code 1 := by
  let x : Settings := { gutterStyle := "bold on gray" }
  let bytes : List UInt8 := "a: 1\n".toList.map fun c => c.toNat.toUInt8
  let w : World := { disk := fun _ => .error .missing, input := bytes }
  have hr : Request.ofArguments [] w.environment.edition = .ok {} := by decide +kernel
  have hread : readInput w x none = .ok "a: 1\n" := by decide +kernel
  obtain ⟨d, hparse⟩ : ∃ d, parse "a: 1\n" = .ok d :=
    Except.exists_ok_of_toBool (by decide +kernel)
  have hfault : Style.ofText "bold on gray" = .error (.ground "gray" (.unknown "gray")) := by
    decide +kernel
  have hfirst : x.IsFirstInvalid "bold on gray" := by
    refine ⟨Category.all.map x.plainStyles.get ++ Category.all.map x.highlightedStyles.get, [], _,
      rfl, fun t ht => Except.exists_ok_of_toBool ?_, hfault⟩
    have hall : ∀ t ∈ Category.all.map x.plainStyles.get ++
        Category.all.map x.highlightedStyles.get, (Style.ofText t).toBool = true := by
      decide +kernel
    exact hall t ht
  have hasks : ¬Style.AsksWithoutNumber "bold on gray" := by
    rw [← Style.exists_number_iff, hfault]
    rintro ⟨_, f, ⟨⟩, ⟨⟩⟩
  obtain ⟨fault, -, -, -, hreported, -⟩ :=
    (styles_reported_iff hr (.known x) hread hparse rfl).2 "bold on gray" rfl hfirst
  exact ⟨bytes, by decide +kernel, hfirst, hasks, (hreported.mpr hasks).1⟩

/-- A colour without numbers is not reported: neither a message nor an exit code is left. -/
theorem styles_unreported :
    ∃ config bytes,
      Utf8.decode config = .ok "[styles.default]\nmap_key = \"rgb(,,)\"\n".toList ∧
        Utf8.decode bytes = .ok "a: 1\n".toList ∧
        (run { disk := fun _ => .ok (.file config), input := bytes } none []).1 =
          ⟨.crash (.style (.notANumber "")), {}⟩ :=
  ⟨"[styles.default]\nmap_key = \"rgb(,,)\"\n".toList.map fun c => c.toNat.toUInt8,
    "a: 1\n".toList.map fun c => c.toNat.toUInt8, by decide +kernel, by decide +kernel,
    by decide +kernel⟩

end Program

end YamlNavigator
