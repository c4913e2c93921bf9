import YamlNavigator.Ansi.Style
import YamlNavigator.Proofs.Outcome
import YamlNavigator.Proofs.Text.Casing
import YamlNavigator.Proofs.Text.Parts

/-!
Styles with a part of a colour that is no number.

* `Integer.exists_ofText_eq_error_iff`: which texts of digits are no numbers;
* `Color.AsksWithoutNumber`, `Color.exists_part_iff`: the words that are refused as colours because
  a part is no number;
* `Style.Reads`, `Style.Fails`, `Style.Reading`: how words are read into a style, and at which it is
  refused;
* `Style.AsksWithoutNumber`, `Style.exists_number_iff`: the styles that are refused because of a
  word without a number.
-/

namespace YamlNavigator

open Text

/-! ### Numbers -/

namespace Text.Integer

/-- A text of digits is read to its end. -/
lemma exists_digitRun {s : List Char} (h : ∀ c ∈ s, isDigit c = true) :
    ∃ ds, digitRun s = some (ds, []) ∧ ds.length = s.length := by
  induction s with
  | nil => exact ⟨[], rfl, rfl⟩
  | cons c s ih =>
      obtain ⟨hc, hs⟩ := List.forall_mem_cons.mp h
      obtain ⟨ds, hrun, hlength⟩ := ih hs
      obtain ⟨v, hv⟩ := Option.isSome_iff_exists.mp hc
      have hunderscore : c ≠ '_' := by
        rintro rfl
        cases hc
      refine ⟨v :: ds, ?_, congrArg (· + 1) hlength⟩
      rw [digitRun.eq_3 _ _ (fun d t hd => absurd hd hunderscore)]
      rw [hv, hrun]
      rfl

/-- **Digits without a number.** A text of digits is no number if and only if there are none, or
more than are accepted. -/
theorem exists_ofText_eq_error_iff {s : List Char} (h : ∀ c ∈ s, isDigit c = true) :
    (∃ f, ofText (String.ofList s) = .error f) ↔ s = [] ∨ digitLimit < s.length := by
  have houter : ∀ c ∈ s, isOuterBlank c = false := by
    intro c hc
    rw [isOuterBlank, isBlank_of_isDigit (h c hc)]
    rfl
  have hstrip : stripIf isOuterBlank s = s :=
    stripIf_eq_self (fun c hc => houter c (List.mem_of_mem_head? hc))
      fun c hc => houter c (List.mem_of_mem_getLast? hc)
  obtain ⟨ds, hrun, hlength⟩ := exists_digitRun h
  rw [ofText, String.toList_ofList, hstrip]
  cases s with
  | nil => simp [signOf, digitRun]
  | cons c s =>
      have hc := h c List.mem_cons_self
      have hsign : signOf (c :: s) = (false, c :: s) := by
        rw [signOf.eq_3]
        · rintro t ⟨⟩
          cases hc
        · rintro t ⟨⟩
          cases hc
      rw [hsign]
      dsimp only
      split
      · next heq =>
          cases heq
          cases hc
      · rw [hrun]
        obtain ⟨v, vs, rfl⟩ := List.exists_cons_of_length_eq_add_one hlength
        dsimp only
        rw [hlength]
        split
        · next hlong => exact ⟨fun _ => .inr hlong, fun _ => ⟨_, rfl⟩⟩
        · next hshort =>
            constructor
            · rintro ⟨f, hf⟩
              cases hf
            · rintro (hnil | hlong)
              · cases hnil
              · exact absurd hlong hshort

end Text.Integer

/-! ### Colours -/

namespace Ansi.Color

/-- The text asks for a colour by three parts of digits, and one of them is no number: it has no
digits, or more than are accepted. -/
def AsksWithoutNumber (s : List Char) : Prop :=
  ∃ r g b, s = "rgb(".toList ++ r ++ ',' :: g ++ ',' :: b ++ [')'] ∧
    (∀ p ∈ [r, g, b], ∀ c ∈ p, isDigit c = true) ∧
      ∃ p ∈ [r, g, b], p = [] ∨ Integer.digitLimit < p.length

/-- A part of digits is no number if it has no digits, or more than are accepted. -/
lemma exists_part_eq_error_iff {p : List Char} (h : ∀ c ∈ p, isDigit c = true) :
    (∃ fault, part p = .error fault) ↔ p = [] ∨ Integer.digitLimit < p.length := by
  rw [← Integer.exists_ofText_eq_error_iff h]
  simp only [part, Except.map_eq_error_iff, Except.mapError_eq_error_iff]
  constructor
  · rintro ⟨_, f, hf, -⟩
    exact ⟨f, hf⟩
  · rintro ⟨f, hf⟩
    exact ⟨_, f, hf, rfl⟩

/-- A part is refused as no number, and for nothing else. -/
lemma exists_of_part_eq_error {p : List Char} {fault : Fault} (h : part p = .error fault) :
    ∃ f, fault = .part f := by
  rw [part, Except.map_eq_error_iff, Except.mapError_eq_error_iff] at h
  obtain ⟨f, -, hf⟩ := h
  exact ⟨f, hf.symm⟩

/-- A parenthesis of a text is a byte of it. -/
lemma mem_toByteArray_ofList {s : List Char} (h : '(' ∈ s) :
    40 ∈ (String.ofList s).toByteArray.data.toList := by
  rw [String.toByteArray_ofList, List.utf8Encode, List.toList_data_toByteArray]
  exact List.mem_flatMap.mpr ⟨'(', h, by decide⟩

/-- No named colour has a parenthesis in its name. -/
lemma lookup_eq_none {s : List Char} (h : '(' ∈ s) :
    colorNames.lookup (String.ofList s) = none := by
  -- The names are looked at byte by byte, which needs no decoding.
  have hnames : (colorNames.all fun p =>
      p.1.toByteArray.data.toList.all fun b => b != 40) = true := by decide +kernel
  refine List.lookup_eq_none_iff.mpr fun p hp => bne_iff_ne.mpr ?_
  intro heq
  have hbyte := mem_toByteArray_ofList h
  rw [heq] at hbyte
  have hne := List.all_eq_true.mp (List.all_eq_true.mp hnames p hp) 40 hbyte
  exact absurd hne (by decide)

/-- A text between the beginning of a call and a closing parenthesis. -/
lemma arguments?_append (name body : List Char) :
    arguments? name (name ++ body ++ [')']) = some body := by
  rw [arguments?, List.append_assoc, if_pos (by simp), List.drop_left, List.dropLast_concat]

/-- What stands inside the parentheses of a call stands in a text between them. -/
lemma eq_of_arguments? {name s body : List Char} (h : arguments? name s = some body)
    (hname : name.getLast? ≠ some ')') : s = name ++ body ++ [')'] := by
  rw [arguments?] at h
  split at h
  · next hcall =>
      rw [Bool.and_eq_true, List.isPrefixOf_iff_prefix, beq_iff_eq] at hcall
      obtain ⟨⟨rest, rfl⟩, hlast⟩ := hcall
      rw [List.drop_left, Option.some.injEq] at h
      have hrest : rest.getLast? = some ')' := by
        rw [List.getLast?_append] at hlast
        cases hend : rest.getLast? with
        | some c => simpa [hend] using hlast
        | none => exact absurd (by simpa [hend] using hlast) hname
      rw [List.append_assoc, ← h, List.dropLast_append_getLast? _ hrest]
  · cases h

/-- The parts of a colour are those between the commas of a call. -/
lemma exists_of_parts? {s : List Char} {ps : List (List Char)} (h : parts? s = some ps) :
    ∃ body, s = "rgb(".toList ++ body ++ [')'] ∧ splitOn ',' body = ps ∧
      ∀ c ∈ body, isDigit c = true ∨ isBlank c = true ∨ c = ',' := by
  rw [parts?] at h
  split at h
  · next body hbody =>
      split at h
      · next hall =>
          rw [Option.some.injEq] at h
          refine ⟨body, eq_of_arguments? hbody (by decide), h, ?_⟩
          rw [Bool.and_eq_true] at hall
          simpa [or_assoc] using hall.2
      · cases h
  · cases h

/-- A digit is no comma. -/
lemma not_mem_of_digits {p : List Char} (h : ∀ c ∈ p, isDigit c = true) : ',' ∉ p := by
  intro hmem
  cases h ',' hmem

/-- Three parts of digits are read from what stands between the commas. -/
lemma parts?_of_digits {r g b : List Char} (h : ∀ p ∈ [r, g, b], ∀ c ∈ p, isDigit c = true) :
    parts? ("rgb(".toList ++ r ++ ',' :: g ++ ',' :: b ++ [')']) = some [r, g, b] := by
  have hbody : "rgb(".toList ++ r ++ ',' :: g ++ ',' :: b ++ [')'] =
      "rgb(".toList ++ joinWith [','] [r, g, b] ++ [')'] := by
    simp [joinWith]
  have hall : ∀ c ∈ joinWith [','] [r, g, b], isDigit c = true ∨ c = ',' := by
    intro c hc
    rcases mem_joinWith hc with hc | ⟨p, hp, hc⟩
    · exact .inr (List.mem_singleton.mp hc)
    · exact .inl (h p hp c hc)
  rw [hbody, parts?, arguments?_append]
  dsimp only
  rw [if_pos, splitOn_joinWith (by simp) fun p hp => not_mem_of_digits (h p hp)]
  rw [Bool.and_eq_true]
  refine ⟨by simp [joinWith], List.all_eq_true.mpr fun c hc => ?_⟩
  rcases hall c hc with hc | rfl
  · rw [hc]
    rfl
  · rfl

/-- In a text without blanks the parts have nothing but digits. -/
lemma digits_of_parts? {s r g b : List Char} (h : parts? s = some [r, g, b])
    (hblank : ∀ c ∈ s, isBlank c = false) :
    s = "rgb(".toList ++ r ++ ',' :: g ++ ',' :: b ++ [')'] ∧
      ∀ p ∈ [r, g, b], ∀ c ∈ p, isDigit c = true := by
  obtain ⟨body, rfl, hsplit, hall⟩ := exists_of_parts? h
  constructor
  · rw [← joinWith_splitOn ',' body, hsplit]
    simp [joinWith]
  · intro p hp c hc
    rw [← hsplit] at hp
    have hbody : c ∈ body := mem_of_mem_splitOn hp hc
    rcases hall c hbody with hdigit | hc' | rfl
    · exact hdigit
    · rw [hblank c (List.mem_append_left _ (List.mem_append_right _ hbody))] at hc'
      cases hc'
    · exact absurd hc (not_mem_of_mem_splitOn hp)

/-- A text that calls for three parts is no colour of another kind. -/
lemma ofText_of_parts {text : String} {r g b : List Char}
    (h : parts? (strip (lower text.toList)) = some [r, g, b]) :
    ofText text = (do
      let red ← part r
      let green ← part g
      let blue ← part b
      if 255 < red || 255 < green || 255 < blue then throw (.partTooLarge text)
      return .full ⟨red, green, blue⟩) := by
  obtain ⟨body, hbody, -, -⟩ := exists_of_parts? h
  have hdefault : strip (lower text.toList) ≠ "default".toList := by
    rw [hbody]
    rintro ⟨⟩
  have hname := lookup_eq_none (s := strip (lower text.toList)) (by rw [hbody]; simp)
  have hhex : hexDigits? (strip (lower text.toList)) = none := by
    rw [hbody]
    rfl
  have hnumber : numberDigits? (strip (lower text.toList)) = none := by
    rw [hbody]
    rfl
  rw [ofText]
  dsimp only
  rw [if_neg hdefault, hname, hhex, hnumber, h]

/-- Only a part of a text that calls for three parts is refused as no number. -/
lemma exists_parts_of_ofText {text : String} {f : Integer.Fault}
    (h : ofText text = .error (.part f)) :
    ∃ r g b, parts? (strip (lower text.toList)) = some [r, g, b] ∧
      ∃ p ∈ [r, g, b], ∃ fault, part p = .error fault := by
  unfold ofText at h
  dsimp only at h
  split at h
  · cases h
  split at h
  · cases h
  split at h
  · cases h
  split at h
  · split at h <;> cases h
  split at h
  · next r g b hparts =>
      refine ⟨r, g, b, hparts, ?_⟩
      rcases Except.bind_eq_error_iff.mp h with h | ⟨red, -, h⟩
      · exact ⟨r, by simp, _, h⟩
      rcases Except.bind_eq_error_iff.mp h with h | ⟨green, -, h⟩
      · exact ⟨g, by simp, _, h⟩
      rcases Except.bind_eq_error_iff.mp h with h | ⟨blue, -, h⟩
      · exact ⟨b, by simp, _, h⟩
      split at h <;> cases h
  · cases h
  · cases h

/-- Three parts make no colour if one of them is no number. -/
lemma exists_parts_eq_error {r g b : List Char} {f : Nat → Nat → Nat → Except Fault Color}
    (h : ∃ p ∈ [r, g, b], ∃ fault, part p = .error fault) :
    ∃ fault, (do f (← part r) (← part g) (← part b)) = .error (.part fault) := by
  simp only [Except.bind_eq_error_iff]
  cases hr : part r with
  | error fault =>
      obtain ⟨n, rfl⟩ := exists_of_part_eq_error hr
      exact ⟨n, .inl rfl⟩
  | ok red =>
      cases hg : part g with
      | error fault =>
          obtain ⟨n, rfl⟩ := exists_of_part_eq_error hg
          exact ⟨n, .inr ⟨red, rfl, .inl rfl⟩⟩
      | ok green =>
          obtain ⟨p, hp, fault, hfault⟩ := h
          simp only [List.mem_cons, List.not_mem_nil, or_false] at hp
          rcases hp with rfl | rfl | rfl
          · rw [hr] at hfault
            cases hfault
          · rw [hg] at hfault
            cases hfault
          · obtain ⟨n, rfl⟩ := exists_of_part_eq_error hfault
            exact ⟨n, .inr ⟨red, rfl, .inr ⟨green, rfl, .inl hfault⟩⟩⟩

/-- **Colours with a part that is no number.** A text without blanks is refused as a colour because
a part is no number if and only if it asks for a colour by three parts of digits, in any case, and
one of them has no digits, or more than are accepted. -/
theorem exists_part_iff {text : String} (h : ∀ c ∈ text.toList, isBlank c = false) :
    (∃ f, ofText text = .error (.part f)) ↔ AsksWithoutNumber (lower text.toList) := by
  have hlower : ∀ c ∈ lower text.toList, isBlank c = false := fun c hc => isBlank_of_mem_lower h hc
  have hstrip : strip (lower text.toList) = lower text.toList :=
    stripIf_eq_self (fun c hc => hlower c (List.mem_of_mem_head? hc))
      fun c hc => hlower c (List.mem_of_mem_getLast? hc)
  constructor
  · rintro ⟨f, hf⟩
    obtain ⟨r, g, b, hparts, p, hp, hpart⟩ := exists_parts_of_ofText hf
    rw [hstrip] at hparts
    obtain ⟨htext, hdigits⟩ := digits_of_parts? hparts hlower
    exact ⟨r, g, b, htext, hdigits, p, hp, (exists_part_eq_error_iff (hdigits p hp)).mp hpart⟩
  · rintro ⟨r, g, b, htext, hdigits, hp⟩
    have hparts := parts?_of_digits hdigits
    rw [← htext, ← hstrip] at hparts
    obtain ⟨p, hp, hpart⟩ := hp
    rw [ofText_of_parts hparts]
    exact exists_parts_eq_error ⟨p, hp, (exists_part_eq_error_iff (hdigits p hp)).mpr hpart⟩

/-- What asks for a colour by parts is in lower case. -/
lemma isPlain_of_asksWithoutNumber {s : List Char} (h : AsksWithoutNumber s) :
    ∀ c ∈ s, IsPlain c := by
  have hall : "rgb(,)".toList.all (fun c => inRanges plainRanges c.toNat) = true := by decide
  have hmarks : ∀ c ∈ "rgb(,)".toList, IsPlain c := fun c hc =>
    isPlain_of_inRanges (List.all_eq_true.mp hall c hc)
  obtain ⟨r, g, b, rfl, hdigits, -⟩ := h
  have hparts : ∀ p ∈ [r, g, b], ∀ c ∈ p, IsPlain c := fun p hp c hc =>
    isPlain_of_isDigit (hdigits p hp c hc)
  simp only [List.forall_mem_append, List.forall_mem_cons]
  refine ⟨⟨⟨⟨fun c hc => hmarks c ?_, hparts r (by simp)⟩, hmarks ',' (by decide),
    hparts g (by simp)⟩, hmarks ',' (by decide), hparts b (by simp)⟩, hmarks ')' (by decide), ?_⟩
  · exact List.mem_append_left [',', ')'] hc
  · exact fun c hc => absurd hc List.not_mem_nil

/-- A text in lower case asks so if and only if the text does in any case. -/
lemma asksWithoutNumber_lower_iff {s : List Char} :
    AsksWithoutNumber (lower (lower s)) ↔ AsksWithoutNumber (lower s) := by
  constructor
  · intro h
    have := (lower_lower_eq_iff (isPlain_of_asksWithoutNumber h)).mp rfl
    rwa [← this] at h
  · intro h
    rwa [(lower_lower_eq_iff (isPlain_of_asksWithoutNumber h)).mpr rfl]

end Ansi.Color

/-! ### Styles -/

namespace Ansi.Style

/-! #### Words -/

/-- A word in lower case. -/
def lowered (word : String) : String := String.ofList (lower word.toList)

/-- The words with a meaning of their own are those that say what the word behind them is. -/
def introducers : List String := ["on", "not", "link"]

/-- Words that are read into a style: two of which the first says what the other is, or one that
switches an attribute on or is the colour of the text. -/
inductive Reads (s : Style) : List String → Style → Prop
  | ground {given name : String} {c : Color} (on : lowered given = "on")
      (color : Color.ofText name = .ok c) : Reads s [given, name] { s with ground := some c }
  | off {given name : String} {a : Attribute} (not : lowered given = "not")
      (known : Attribute.ofWord? name = some a) :
      Reads s [given, name] { s with attributes := (a, false) :: s.attributes }
  | link {given address : String} (link : lowered given = "link") :
      Reads s [given, address] { s with link := some address }
  | on {given : String} {a : Attribute} (own : lowered given ∉ introducers)
      (known : Attribute.ofWord? (lowered given) = some a) :
      Reads s [given] { s with attributes := (a, true) :: s.attributes }
  | color {given : String} {c : Color} (own : lowered given ∉ introducers)
      (other : Attribute.ofWord? (lowered given) = none)
      (color : Color.ofText (lowered given) = .ok c) : Reads s [given] { s with color := some c }

/-- Words at whose beginning a style is refused. -/
inductive Fails : List String → Fault → Prop
  | groundMissing {given : String} (on : lowered given = "on") : Fails [given] .groundMissing
  | ground {given name : String} {rest : List String} {fault : Color.Fault}
      (on : lowered given = "on") (color : Color.ofText name = .error fault) :
      Fails (given :: name :: rest) (.ground name fault)
  | attributeMissing {given : String} (not : lowered given = "not") :
      Fails [given] (.attributeExpected "")
  | attributeUnknown {given name : String} {rest : List String} (not : lowered given = "not")
      (other : Attribute.ofWord? name = none) :
      Fails (given :: name :: rest) (.attributeExpected name)
  | addressMissing {given : String} (link : lowered given = "link") :
      Fails [given] .addressMissing
  | color {given : String} {rest : List String} {fault : Color.Fault}
      (own : lowered given ∉ introducers) (other : Attribute.ofWord? (lowered given) = none)
      (color : Color.ofText (lowered given) = .error fault) :
      Fails (given :: rest) (.color (lowered given) fault)

variable {s t : Style} {front back ws : List String} {fault : Fault} {f : Integer.Fault}

/-- **The beginning of words.** Words are all read, or they begin with some that are read, or a
style is refused at their beginning. -/
theorem reads_or_fails (s : Style) (ws : List String) :
    ws = [] ∨ (∃ front back t, ws = front ++ back ∧ Reads s front t) ∨ ∃ fault, Fails ws fault := by
  rcases ws with _ | ⟨given, rest⟩
  · exact .inl rfl
  refine .inr ?_
  by_cases hown : lowered given ∈ introducers
  · simp only [introducers, List.mem_cons, List.not_mem_nil, or_false] at hown
    rcases hown with hon | hnot | hlink
    · rcases rest with _ | ⟨name, rest⟩
      · exact .inr ⟨_, .groundMissing hon⟩
      · cases hcolor : Color.ofText name with
        | ok c => exact .inl ⟨[given, name], rest, _, rfl, .ground hon hcolor⟩
        | error fault => exact .inr ⟨_, .ground hon hcolor⟩
    · rcases rest with _ | ⟨name, rest⟩
      · exact .inr ⟨_, .attributeMissing hnot⟩
      · cases hattribute : Attribute.ofWord? name with
        | some a => exact .inl ⟨[given, name], rest, _, rfl, .off hnot hattribute⟩
        | none => exact .inr ⟨_, .attributeUnknown hnot hattribute⟩
    · rcases rest with _ | ⟨address, rest⟩
      · exact .inr ⟨_, .addressMissing hlink⟩
      · exact .inl ⟨[given, address], rest, _, rfl, .link hlink⟩
  · cases hattribute : Attribute.ofWord? (lowered given) with
    | some a => exact .inl ⟨[given], rest, _, rfl, .on hown hattribute⟩
    | none =>
        cases hcolor : Color.ofText (lowered given) with
        | ok c => exact .inl ⟨[given], rest, _, rfl, .color hown hattribute hcolor⟩
        | error fault => exact .inr ⟨_, .color hown hattribute hcolor⟩

/-- Words that are read are done with. -/
lemma Reads.ofWords (h : Reads s front t) (back : List String) :
    ofWords s (front ++ back) = ofWords t back := by
  rw [ofWords.eq_def]
  cases h with
  | ground on color => simp_all [lowered]
  | off not known => simp_all [lowered]
  | link link => simp_all [lowered]
  | on own known => simp_all [lowered, introducers]
  | color own other color => simp_all [lowered, introducers]

/-- Nothing is read behind words at whose beginning a style is refused. -/
lemma Fails.ofWords (h : Fails ws fault) : ofWords s ws = .error fault := by
  rw [ofWords.eq_def]
  cases h with
  | groundMissing on => simp_all [lowered]
  | ground on color => simp_all [lowered]
  | attributeMissing not => simp_all [lowered]
  | attributeUnknown not other => simp_all [lowered]
  | addressMissing link => simp_all [lowered]
  | color own other color => simp_all [lowered, introducers]

/-- Words that are read in turn. -/
inductive Reading : Style → List String → Style → Prop
  | nil (s : Style) : Reading s [] s
  | cons {s t u : Style} {front back : List String} (head : Reads s front t)
      (tail : Reading t back u) : Reading s (front ++ back) u

/-- Words that are read in turn are done with. -/
lemma Reading.ofWords (h : Reading s front t) (back : List String) :
    ofWords s (front ++ back) = ofWords t back := by
  induction h with
  | nil s => rfl
  | cons head tail ih => rw [List.append_assoc, head.ofWords, ih]

/-- Words that are read in turn are all of them, or a style is refused behind them. -/
lemma exists_reading (s : Style) (ws : List String) :
    ∃ front back t, ws = front ++ back ∧ Reading s front t ∧
      (back = [] ∨ ∃ fault, Fails back fault) := by
  induction hlength : ws.length using Nat.strongRecOn generalizing s ws with
  | ind n ih =>
      rcases reads_or_fails s ws with rfl | ⟨front, rest, t, rfl, hreads⟩ | hfails
      · exact ⟨[], [], s, rfl, .nil s, .inl rfl⟩
      · have hshorter : rest.length < n := by
          rw [← hlength, List.length_append]
          cases hreads <;> simp
        obtain ⟨middle, back, u, rfl, hreading, hback⟩ := ih _ hshorter t rest rfl
        exact ⟨front ++ middle, back, u, (List.append_assoc _ _ _).symm, .cons hreads hreading,
          hback⟩
      · exact ⟨[], ws, s, rfl, .nil s, .inr hfails⟩

/-- Words make a style if and only if they are all read. -/
lemma ofWords_eq_ok_iff : ofWords s ws = .ok t ↔ Reading s ws t := by
  constructor
  · intro h
    obtain ⟨front, back, u, rfl, hreading, rfl | ⟨fault, hfails⟩⟩ := exists_reading s ws
    · rw [hreading.ofWords, ofWords] at h
      cases h
      rwa [List.append_nil]
    · rw [hreading.ofWords, hfails.ofWords] at h
      cases h
  · intro h
    rw [← List.append_nil ws, h.ofWords, ofWords]

/-- A style is refused at the first words that are not read. -/
lemma ofWords_eq_error_iff : ofWords s ws = .error fault ↔
    ∃ front back t, ws = front ++ back ∧ Reading s front t ∧ Fails back fault := by
  constructor
  · intro h
    obtain ⟨front, back, t, rfl, hreading, rfl | ⟨cause, hfails⟩⟩ := exists_reading s ws
    · rw [hreading.ofWords, ofWords] at h
      cases h
    · rw [hreading.ofWords, hfails.ofWords] at h
      cases h
      exact ⟨front, back, t, rfl, hreading, hfails⟩
  · rintro ⟨front, back, t, rfl, hreading, hfails⟩
    rw [hreading.ofWords, hfails.ofWords]

/-! #### Words without a number -/

/-- A word asks, in any case, for a colour with a part that is no number. The words in front of it
are read, but for the colour of the ground if they end where it is expected. -/
def MeetsNoNumber (s : Style) (words : List String) : Prop :=
  ∃ front word back, words = front ++ word :: back ∧
    ((∃ t, ofWords s front = .ok t) ∨ ofWords s front = .error .groundMissing) ∧
    Color.AsksWithoutNumber (lower word.toList)

/-- A style asks so if one of its words does. -/
def AsksWithoutNumber (text : String) : Prop :=
  MeetsNoNumber {} ((words text.toList).map String.ofList)

/-- A number is behind a fault if a part of a colour is none. -/
lemma Fails.of_number (h : Fails ws fault) (hnumber : fault.number? = some f) :
    (∃ given name rest, ws = given :: name :: rest ∧ lowered given = "on" ∧
      Color.ofText name = .error (.part f)) ∨
    ∃ given rest, ws = given :: rest ∧ Color.ofText (lowered given) = .error (.part f) := by
  cases h with
  | @ground given name rest cause on color =>
      cases cause with
      | part n =>
          cases hnumber
          exact .inl ⟨given, name, rest, rfl, on, color⟩
      | _ => cases hnumber
  | @color given rest cause own other color =>
      cases cause with
      | part n =>
          cases hnumber
          exact .inr ⟨given, rest, rfl, color⟩
      | _ => cases hnumber
  | _ => cases hnumber

/-- A word without blanks asks so if its lower case is refused because of a number. -/
lemma exists_lowered_iff {word : String} (h : ∀ c ∈ word.toList, isBlank c = false) :
    (∃ f, Color.ofText (lowered word) = .error (.part f)) ↔
      Color.AsksWithoutNumber (lower word.toList) := by
  have hlower : ∀ c ∈ (lowered word).toList, isBlank c = false := by
    rw [lowered, String.toList_ofList]
    exact fun c hc => isBlank_of_mem_lower h hc
  rw [Color.exists_part_iff hlower, lowered, String.toList_ofList,
    Color.asksWithoutNumber_lower_iff]

/-- A word that asks for a colour by parts is none of those without a parenthesis. -/
lemma lowered_ne {word other : String} (h : Color.AsksWithoutNumber (lower word.toList))
    (hother : '(' ∉ other.toList) : lowered word ≠ other := by
  obtain ⟨r, g, b, htext, -⟩ := h
  rintro rfl
  rw [lowered, String.toList_ofList, htext] at hother
  simp at hother

/-- A word that asks for a colour by parts is read as nothing else. -/
lemma fails_of_asksWithoutNumber {word : String} {rest : List String}
    (hword : ∀ c ∈ word.toList, isBlank c = false)
    (h : Color.AsksWithoutNumber (lower word.toList)) :
    ∃ f, Fails (word :: rest) (.color (lowered word) (.part f)) := by
  have hintroducers : ∀ w ∈ introducers, '(' ∉ w.toList := by decide
  have hattributes : ∀ p ∈ Attribute.words, '(' ∉ p.1.toList := by decide
  have hown : lowered word ∉ introducers := fun hmem => lowered_ne h (hintroducers _ hmem) rfl
  have hother : Attribute.ofWord? (lowered word) = none :=
    List.lookup_eq_none_iff.mpr fun p hp => bne_iff_ne.mpr (lowered_ne h (hattributes p hp))
  obtain ⟨f, hf⟩ := (exists_lowered_iff hword).mpr h
  exact ⟨f, .color hown hother hf⟩

/-- **Words without a number.** A style is refused because of a number if and only if one of its
words asks for a colour without one. -/
theorem exists_ofWords_number_iff (hblank : ∀ w ∈ ws, ∀ c ∈ w.toList, isBlank c = false) :
    (∃ fault f, ofWords s ws = .error fault ∧ fault.number? = some f) ↔ MeetsNoNumber s ws := by
  constructor
  · rintro ⟨fault, f, h, hnumber⟩
    obtain ⟨front, back, t, rfl, hreading, hfails⟩ := ofWords_eq_error_iff.mp h
    rcases hfails.of_number hnumber with ⟨given, name, rest, rfl, hon, hcolor⟩ |
      ⟨given, rest, rfl, hcolor⟩
    · have hname := hblank name (by simp)
      refine ⟨front ++ [given], name, rest, by simp, .inr ?_,
        (Color.exists_part_iff hname).mp ⟨f, hcolor⟩⟩
      rw [hreading.ofWords, (Fails.groundMissing hon).ofWords]
    · have hgiven := hblank given (by simp)
      exact ⟨front, given, rest, rfl, .inl ⟨t, ofWords_eq_ok_iff.mpr hreading⟩,
        (exists_lowered_iff hgiven).mp ⟨f, hcolor⟩⟩
  · rintro ⟨front, word, back, rfl, hfront, hasks⟩
    have hword := hblank word (by simp)
    rcases hfront with ⟨t, ht⟩ | hground
    · obtain ⟨f, hfails⟩ := fails_of_asksWithoutNumber hword hasks
      have hreading := ofWords_eq_ok_iff.mp ht
      exact ⟨_, f, ofWords_eq_error_iff.mpr ⟨front, _, t, rfl, hreading, hfails⟩, rfl⟩
    · obtain ⟨before, last, t, rfl, hreading, hfails⟩ := ofWords_eq_error_iff.mp hground
      obtain ⟨f, hf⟩ := (Color.exists_part_iff hword).mpr hasks
      cases hfails with
      | @groundMissing given hon =>
          have hground : Fails (given :: word :: back) (.ground word (.part f)) := .ground hon hf
          exact ⟨_, f, ofWords_eq_error_iff.mpr ⟨before, _, t, by simp, hreading, hground⟩, rfl⟩

/-! #### Styles without a number -/

/-- What is not of a class is left where those of the class are stripped off. -/
lemma mem_stripIf {p : Char → Bool} {s : List Char} {c : Char} (hmem : c ∈ s) (hc : p c = false) :
    c ∈ stripIf p s := by
  have hdrop : ∀ {s : List Char}, c ∈ s → c ∈ s.dropWhile p := by
    intro s hs
    rw [← List.takeWhile_append_dropWhile (p := p) (l := s), List.mem_append] at hs
    rcases hs with hs | hs
    · rw [List.mem_takeWhile_imp hs] at hc
      cases hc
    · exact hs
  rw [stripIf, stripEndIf, List.mem_reverse]
  exact hdrop (List.mem_reverse.mpr (hdrop hmem))

/-- What stands in a word stands in the text or in the word that is being read, and is no blank of
the text. -/
lemma of_mem_wordsFrom {text before w : List Char} {c : Char} (hw : w ∈ wordsFrom before text)
    (hc : c ∈ w) : c ∈ before ∨ c ∈ text ∧ isBlank c = false := by
  fun_induction wordsFrom before text with
  | case1 => cases hw
  | case2 before hne =>
      rw [List.mem_singleton.mp hw] at hc
      exact .inl (List.mem_reverse.mp hc)
  | case3 d text hd ih =>
      rcases ih hw with h | h
      · cases h
      · exact .inr ⟨List.mem_cons_of_mem d h.1, h.2⟩
  | case4 d text hd ih =>
      rcases ih hw with h | h
      · rw [List.mem_singleton.mp h]
        exact .inr ⟨List.mem_cons_self, Bool.eq_false_iff.mpr hd⟩
      · exact .inr ⟨List.mem_cons_of_mem d h.1, h.2⟩
  | case5 e before d text hd ih =>
      rcases List.mem_cons.mp hw with rfl | hw
      · exact .inl (List.mem_reverse.mp hc)
      · rcases ih hw with h | h
        · cases h
        · exact .inr ⟨List.mem_cons_of_mem d h.1, h.2⟩
  | case6 e before d text hd ih =>
      rcases ih hw with h | h
      · rcases List.mem_cons.mp h with rfl | h
        · exact .inr ⟨List.mem_cons_self, Bool.eq_false_iff.mpr hd⟩
        · exact .inl h
      · exact .inr ⟨List.mem_cons_of_mem d h.1, h.2⟩

/-- What stands in a word stands in the text and is no blank. -/
lemma of_mem_words {text w : List Char} {c : Char} (hw : w ∈ words text) (hc : c ∈ w) :
    c ∈ text ∧ isBlank c = false :=
  (of_mem_wordsFrom hw hc).resolve_left List.not_mem_nil

/-- The style `none` asks for no colour. -/
lemma not_asksWithoutNumber_none {text : String} (h : strip text.toList = "none".toList) :
    ¬AsksWithoutNumber text := by
  rintro ⟨front, word, back, heq, -, hasks⟩
  have hmem : word ∈ (words text.toList).map String.ofList := by
    rw [heq]
    exact List.mem_append_right _ List.mem_cons_self
  obtain ⟨w, hw, rfl⟩ := List.mem_map.mp hmem
  rw [String.toList_ofList] at hasks
  -- The parenthesis of the word stands in the text, and it is not stripped off.
  have hlower : '(' ∈ lower w := by
    obtain ⟨r, g, b, htext, -⟩ := hasks
    rw [htext]
    simp
  have hplain := (Color.isPlain_of_asksWithoutNumber hasks '(' hlower).not_form
  have hword : '(' ∈ w := by
    rcases cases_of_mem_lowerFrom hlower with ⟨h, -⟩ | ⟨c, hcapital, hc⟩ | h
    · exact h
    · have := isCapital_iff.mp hcapital
      have : '('.toNat = 40 := rfl
      omega
    · rw [hplain] at h
      cases h
  obtain ⟨htext, hblank⟩ := of_mem_words hw hword
  have hstrip : '(' ∈ strip text.toList := mem_stripIf htext hblank
  rw [h] at hstrip
  exact absurd hstrip (by decide)

/-- **Styles with a part of a colour that is no number.** A style is refused because of a number if
and only if a word asks, in any case, for a colour by three parts of digits, of which one has no
digits or more than are accepted, and the words in front of it are read. -/
theorem exists_number_iff {text : String} :
    (∃ fault f, ofText text = .error fault ∧ fault.number? = some f) ↔ AsksWithoutNumber text := by
  have hblank : ∀ w ∈ (words text.toList).map String.ofList, ∀ c ∈ w.toList, isBlank c = false := by
    intro w hw c hc
    obtain ⟨word, hword, rfl⟩ := List.mem_map.mp hw
    rw [String.toList_ofList] at hc
    exact (of_mem_words hword hc).2
  by_cases hnone : strip text.toList = "none".toList
  · rw [ofText, if_pos hnone]
    simp [not_asksWithoutNumber_none hnone]
  · rw [ofText, if_neg hnone]
    exact exists_ofWords_number_iff hblank

end Ansi.Style

end YamlNavigator
