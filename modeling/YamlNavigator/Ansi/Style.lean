import YamlNavigator.Ansi.Color

/-!
Styles of terminal text.

* `Attribute`, `Attribute.ofWord?`: the ways to set off text besides colour;
* `Style`: which attributes are switched on or off, and the two colours;
* `Style.Fault`: why a text is not read as a style;
* `Style.ofText`: reads a style: attributes, `not` with an attribute, a colour, `on` with a colour,
  `link` with an address;
* `Style.codes`, `Style.render`: the codes of a style, and a text with them around it;
* `Style.Linking`: how a text that leads to an address is written.
-/

namespace YamlNavigator.Ansi

open Text

/-- The ways to set off text besides colour. -/
inductive Attribute where
  | bold
  | dim
  | italic
  | underline
  | blink
  | fastBlink
  | reverse
  | conceal
  | strike
  | doubleUnderline
  | frame
  | encircle
  | overline
  deriving DecidableEq, Repr

namespace Attribute

/-- All attributes, in the order of their codes. -/
def all : List Attribute :=
  [bold, dim, italic, underline, blink, fastBlink, reverse, conceal, strike, doubleUnderline, frame,
    encircle, overline]

/-- The code that switches an attribute on. -/
def code : Attribute → Nat
  | bold => 1
  | dim => 2
  | italic => 3
  | underline => 4
  | blink => 5
  | fastBlink => 6
  | reverse => 7
  | conceal => 8
  | strike => 9
  | doubleUnderline => 21
  | frame => 51
  | encircle => 52
  | overline => 53

/-- The words for the attributes. -/
def words : List (String × Attribute) :=
  [("dim", dim), ("d", dim), ("bold", bold), ("b", bold), ("italic", italic), ("i", italic),
    ("underline", underline), ("u", underline), ("blink", blink), ("blink2", fastBlink),
    ("reverse", reverse), ("r", reverse), ("conceal", conceal), ("c", conceal), ("strike", strike),
    ("s", strike), ("underline2", doubleUnderline), ("uu", doubleUnderline), ("frame", frame),
    ("encircle", encircle), ("overline", overline), ("o", overline)]

/-- The attribute that a word names. -/
def ofWord? (word : String) : Option Attribute := words.lookup word

end Attribute

/-- A style: the attributes that it switches on or off, the latest first, the colour of the text and
of the ground, and the address that the text leads to. -/
structure Style where
  attributes : List (Attribute × Bool) := []
  color : Option Color := none
  ground : Option Color := none
  link : Option String := none
  deriving DecidableEq, Repr, Inhabited

namespace Style

/-- Why a text is not read as a style. -/
inductive Fault where
  | groundMissing
  | ground (word : String) (fault : Color.Fault)
  | color (word : String) (fault : Color.Fault)
  | attributeExpected (word : String)
  | addressMissing
  deriving DecidableEq, Repr

/-- The number behind a fault, if a part of a colour is not a number. Such a fault is none of the
style's wording. -/
def Fault.number? : Fault → Option Integer.Fault
  | .ground _ (.part f) => some f
  | .color _ (.part f) => some f
  | _ => none

/-- The wording of a fault. -/
def Fault.message : Fault → String
  | .groundMissing => "color expected after 'on'"
  | .ground _ (.part f) | .color _ (.part f) => f.message
  | .ground word fault => s!"unable to parse {quoted word} as background color; {fault.message}"
  | .color word fault => s!"unable to parse {quoted word} as color; {fault.message}"
  | .attributeExpected word => s!"expected style attribute after 'not', found {quoted word}"
  | .addressMissing => "URL expected after 'link'"

/-- Reads the words of a style into one read so far. Words in front are read in any case, an
attribute behind `not` only in lower case. -/
def ofWords (s : Style) : List String → Except Fault Style
  | [] => .ok s
  | given :: rest =>
      let word := String.ofList (lower given.toList)
      if word = "on" then
        match rest with
        | [] => .error .groundMissing
        | name :: rest =>
            match Color.ofText name with
            | .ok c => ofWords { s with ground := some c } rest
            | .error fault => .error (.ground name fault)
      else if word = "not" then
        match rest with
        | [] => .error (.attributeExpected "")
        | name :: rest =>
            match Attribute.ofWord? name with
            | some a => ofWords { s with attributes := (a, false) :: s.attributes } rest
            | none => .error (.attributeExpected name)
      else if word = "link" then
        match rest with
        | [] => .error .addressMissing
        | address :: rest => ofWords { s with link := some address } rest
      else
        match Attribute.ofWord? word with
        | some a => ofWords { s with attributes := (a, true) :: s.attributes } rest
        | none =>
            match Color.ofText word with
            | .ok c => ofWords { s with color := some c } rest
            | .error fault => .error (.color word fault)

/-- Reads a style. A blank text and the word `none` alone are the style that changes nothing. -/
def ofText (text : String) : Except Fault Style :=
  let s := text.toList
  if strip s = "none".toList then .ok {}
  else ofWords {} ((words s).map String.ofList)

/-- The codes of a style: those of its attributes, then those of its colours. -/
def codes (system : ColorSystem) (s : Style) : List Nat :=
  ((Attribute.all.filter fun a => s.attributes.lookup a == some true).map Attribute.code) ++
    ((s.color.map fun c => (c.reduce system).codes false).getD []) ++
    ((s.ground.map fun c => (c.reduce system).codes true).getD [])

/-- The control sequence that selects a list of codes. -/
def sequence (codes : List Nat) : String :=
  "\x1b[" ++ ";".intercalate (codes.map toString) ++ "m"

/-- How a text in a style with an address is written. The sequences around it hold a random name of
the link, so that they are up to the run. -/
abbrev Linking := Style → String → String

/-- Links are left out. -/
def Linking.bare : Linking := fun _ text => text

/-- A text with the codes of a style in front and the end of all styles behind, as a link if the
style has an address. Without a colour system and around nothing, nothing is written; without codes
there are none. -/
def render (system : Option ColorSystem) (s : Style) (text : String)
    (linking : Linking := .bare) : String :=
  match system with
  | none => text
  | some system =>
      if text.isEmpty then text
      else
        let coded :=
          if (s.codes system).isEmpty then text
          else sequence (s.codes system) ++ text ++ sequence [0]
        if s.link.isSome then linking s coded else coded

end Style

end YamlNavigator.Ansi
