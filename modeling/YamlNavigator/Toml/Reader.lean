import YamlNavigator.Config.Value
import YamlNavigator.Text.Lines

/-!
Reading the values and keys of TOML.

* `Toml.Fault`: why a text is refused: it is not TOML, or a number in it is too long;
* `Toml.Read`: a computation that reads from the front of a text;
* `Toml.basicText`, `Toml.literalText` and their forms over several lines: the four kinds of
  strings;
* `Toml.key`: a key with its parts between dots;
* `Toml.number?`, `Toml.dateTime?`: numbers, and dates and times;
* `Toml.value`: a value, with a bound on the number of nested calls.
-/

namespace YamlNavigator.Toml

open Text

/-- Why a text is refused. -/
inductive Fault where
  | malformed
  | digits (fault : Integer.Fault)
  deriving DecidableEq, Repr

/-- The wording of a fault. -/
def Fault.message : Fault → String
  | .malformed => "Invalid document"
  | .digits fault => fault.message

/-- A computation that reads from the front of a text. -/
abbrev Read := StateT (List Char) (Except Fault)

/-- Refuses the text. -/
def refuse {α : Type} : Read α := throw .malformed

/-- Moves over a text if it stands at the front; answers whether it does. -/
def skip? (s : List Char) : Read Bool := do
  let ahead ← get
  if s.isPrefixOf ahead then
    set (ahead.drop s.length)
    return true
  else return false

/-- Moves over a text that must stand at the front. -/
def expect (s : List Char) : Read Unit := do
  if !(← skip? s) then refuse

/-- Reads the longest run of characters of a class. -/
def takeWhile (p : Char → Bool) : Read (List Char) := do
  let ahead ← get
  set (ahead.dropWhile p)
  return ahead.takeWhile p

/-- Moves over spaces and tabs. -/
def skipBlanks : Read Unit := modify fun s => s.dropWhile fun c => c = ' ' || c = '\t'

/-- Control characters, which no text may hold, the tab apart. -/
def isControl (c : Char) : Bool := (c.toNat < 0x20 && c != '\t') || c.toNat = 0x7f

/-- Moves over a comment, if there is one. -/
def skipComment : Read Unit := do
  if ← skip? ['#'] then
    if (← takeWhile (· != '\n')).any isControl then refuse

/-- Moves over blanks, line breaks and comments, with a bound on the number of comments. -/
def skipLayout : Nat → Read Unit
  | 0 => return ()
  | n + 1 => do
      modify fun s => s.dropWhile fun c => c = ' ' || c = '\t' || c = '\n'
      if (← get).head? == some '#' then
        skipComment
        skipLayout n

/-! ### Strings -/

/-- The characters that the one-letter escapes stand for. -/
def namedEscape? (c : Char) : Option Char :=
  match c with
  | 'b' => some '\x08'
  | 't' => some '\t'
  | 'n' => some '\n'
  | 'f' => some '\x0c'
  | 'r' => some '\r'
  | '\x22' => some '\x22'
  | '\\' => some '\\'
  | _ => none

/-- Reads the digits of a numeric escape; the number must be that of a character. -/
def numericEscape (width : Nat) : Read Char := do
  let ahead ← get
  let digits := ahead.take width
  if digits.length < width || !digits.all isHexDigit then refuse
  let n := numberOf 16 digits
  if n < 0xd800 || (0xdfff < n && n < 0x110000) then
    set (ahead.drop width)
    return Char.ofNat n
  else refuse

/-- Reads an escape, after its backslash. Over several lines, a backslash at the end of a line
leaves out all white space up to the next text. -/
def escape (multiline : Bool) : Read (List Char) := do
  match ← get with
  | [] => refuse
  | c :: rest =>
      if multiline && (c = ' ' || c = '\t' || c = '\n') then
        skipBlanks
        match ← get with
        | [] => return []
        | d :: _ =>
            if d != '\n' then refuse
            modify fun s => s.dropWhile fun c => c = ' ' || c = '\t' || c = '\n'
            return []
      else
        set rest
        if c = 'u' then return [← numericEscape 4]
        else if c = 'U' then return [← numericEscape 8]
        else
          match namedEscape? c with
          | some r => return [r]
          | none => refuse

/-- The mark around basic strings. -/
def doubleQuote : Char := '\x22'

/-- The mark around literal strings. -/
def singleQuote : Char := '\x27'

/-- Three marks, which surround strings over several lines. -/
def tripled (mark : Char) : List Char := [mark, mark, mark]

/-- Reads the rest of a basic string, after its opening mark, with a bound on its length. -/
def basicText (multiline : Bool) : Nat → Read (List Char)
  | 0 => refuse
  | n + 1 => do
      match ← get with
      | [] => refuse
      | c :: rest =>
          if c = doubleQuote && !multiline then
            set rest
            return []
          else if c = doubleQuote && (← skip? (tripled doubleQuote)) then return []
          else if c = '\\' then
            set rest
            let s ← escape multiline
            return s ++ (← basicText multiline n)
          else if isControl c && !(multiline && c = '\n') then refuse
          else
            set rest
            return c :: (← basicText multiline n)

/-- Reads the rest of a literal string on one line, after its opening mark. -/
def literalText : Read (List Char) := do
  let s ← takeWhile (· != singleQuote)
  expect [singleQuote]
  if s.any isControl then refuse
  return s

/-- Reads the rest of a literal string over several lines, after its opening marks, with a bound on
its length. -/
def literalLines : Nat → Read (List Char)
  | 0 => refuse
  | n + 1 => do
      if ← skip? (tripled singleQuote) then return []
      match ← get with
      | [] => refuse
      | c :: rest =>
          if isControl c && c != '\n' then refuse
          set rest
          return c :: (← literalLines n)

/-- Reads up to two more marks behind a string over several lines; they belong to it. -/
def extraMarks (mark : Char) : Read (List Char) := do
  if !(← skip? [mark]) then return []
  if !(← skip? [mark]) then return [mark]
  return [mark, mark]

/-- Reads a string, if one begins at the front. -/
def string? : Read (Option String) := do
  let n := (← get).length + 1
  if ← skip? (tripled doubleQuote) then
    let _ ← skip? ['\n']
    let s ← basicText true n
    return some (String.ofList (s ++ (← extraMarks doubleQuote)))
  else if ← skip? [doubleQuote] then return some (String.ofList (← basicText false n))
  else if ← skip? (tripled singleQuote) then
    let _ ← skip? ['\n']
    let s ← literalLines n
    return some (String.ofList (s ++ (← extraMarks singleQuote)))
  else if ← skip? [singleQuote] then return some (String.ofList (← literalText))
  else return none

/-! ### Keys -/

/-- The characters of keys without quotes. -/
def isKeyChar (c : Char) : Bool :=
  isAsciiDigit c || ('A' ≤ c && c ≤ 'Z') || ('a' ≤ c && c ≤ 'z') || c = '-' || c = '_'

/-- Reads a part of a key: without quotes, or a string on one line. -/
def keyPart : Read String := do
  let n := (← get).length + 1
  if ← skip? [doubleQuote] then return String.ofList (← basicText false n)
  else if ← skip? [singleQuote] then return String.ofList (← literalText)
  else
    let s ← takeWhile isKeyChar
    if s.isEmpty then refuse
    return String.ofList s

/-- Reads the parts of a key behind its first one, with a bound on their number. -/
def moreKeyParts : Nat → Read (List String)
  | 0 => return []
  | n + 1 => do
      skipBlanks
      if ← skip? ['.'] then
        skipBlanks
        let part ← keyPart
        return part :: (← moreKeyParts n)
      else return []

/-- Reads a key: its parts with dots between them. -/
def key : Read (List String) := do
  let first ← keyPart
  return first :: (← moreKeyParts ((← get).length + 1))

/-! ### Numbers -/

/-- The digits at the front of a text, in which single low lines may stand, and the text behind. -/
def digitsAfter (p : Char → Bool) : List Char → List Char × List Char
  | '_' :: c :: s =>
      if p c then
        let r := digitsAfter p s
        (c :: r.1, r.2)
      else ([], '_' :: c :: s)
  | c :: s =>
      if p c then
        let r := digitsAfter p s
        (c :: r.1, r.2)
      else ([], c :: s)
  | [] => ([], [])

/-- At least one digit at the front of a text, and the text behind. -/
def digits? (p : Char → Bool) : List Char → Option (List Char × List Char)
  | c :: s =>
      if p c then
        let r := digitsAfter p s
        some (c :: r.1, r.2)
      else none
  | [] => none

/-- A whole number in base sixteen, eight or two at the front of a text. -/
def basedNumber? : List Char → Option (Int × List Char)
  | '0' :: 'x' :: s => (digits? isHexDigit s).map fun r => (Int.ofNat (numberOf 16 r.1), r.2)
  | '0' :: 'o' :: s =>
      (digits? (fun c => '0' ≤ c && c ≤ '7') s).map fun r => (Int.ofNat (numberOf 8 r.1), r.2)
  | '0' :: 'b' :: s =>
      (digits? (fun c => c = '0' || c = '1') s).map fun r => (Int.ofNat (numberOf 2 r.1), r.2)
  | _ => none

/-- The digits before the point: zero alone, or digits that do not begin with zero. -/
def wholeDigits? : List Char → Option (List Char × List Char)
  | '0' :: s => some (['0'], s)
  | s => digits? isAsciiDigit s

/-- The digits behind a point, if there are any. -/
def fractionDigits : List Char → List Char × List Char
  | '.' :: s => (digits? isAsciiDigit s).getD ([], '.' :: s)
  | s => ([], s)

/-- An exponent, if there is one. -/
def exponent? (s : List Char) : Option (Int × List Char) :=
  match s with
  | e :: t =>
      if e = 'e' || e = 'E' then
        let (negative, t) := Integer.signOf t
        (digits? isAsciiDigit t).map fun r =>
          let n : Nat := numberOf 10 r.1
          (if negative then -(n : Int) else n, r.2)
      else none
  | [] => none

/-- A number at the front of a text, and the text behind. -/
def number? (s : List Char) : Except Fault (Option (Value × List Char)) :=
  match basedNumber? s with
  | some (n, rest) => .ok (some (.integer n, rest))
  | none =>
      let (negative, body) := Integer.signOf s
      match wholeDigits? body with
      | none => .ok none
      | some (whole, afterWhole) =>
          let (fraction, afterFraction) := fractionDigits afterWhole
          let e := exponent? afterFraction
          if fraction.isEmpty && e.isNone then
            if Integer.digitLimit < whole.length then
              .error (.digits (.tooManyDigits whole.length))
            else
              let n : Nat := numberOf 10 whole
              .ok (some (.integer (if negative then -(n : Int) else n), afterWhole))
          else
            let (power, rest) := e.getD (0, afterFraction)
            let x := Binary64.ofDecimal negative (numberOf 10 (whole ++ fraction))
              (power - fraction.length)
            .ok (some (.float x, rest))

/-- An infinity, or no number, at the front of a text. -/
def specialNumber? (s : List Char) : Option (Value × List Char) :=
  let (negative, body) := Integer.signOf s
  match body with
  | 'i' :: 'n' :: 'f' :: rest => some (.float (.infinite negative), rest)
  | 'n' :: 'a' :: 'n' :: rest => some (.float .notANumber, rest)
  | _ => none

/-! ### Dates and times -/

/-- A number of a fixed count of digits within bounds, at the front of a text. -/
def fixed? (width low high : Nat) (s : List Char) : Option (Nat × List Char) :=
  let ds := s.take width
  let n := numberOf 10 ds
  if ds.length = width && ds.all isAsciiDigit && low ≤ n && n ≤ high then some (n, s.drop width)
  else none

/-- The text behind a character at the front. -/
def after? (c : Char) : List Char → Option (List Char)
  | d :: s => if d = c then some s else none
  | [] => none

/-- The millionths of a second at the front of a text; digits behind the sixth are left out. -/
def micros (s : List Char) : Nat × List Char :=
  match s with
  | '.' :: t =>
      let ds := t.takeWhile isAsciiDigit
      if ds.isEmpty then (0, s)
      else
        let six := ds.take 6
        (numberOf 10 six * Nat.pow 10 (6 - six.length), t.drop ds.length)
  | _ => (0, s)

/-- A time at the front of a text. -/
def time? (s : List Char) : Option (TimeOfDay × List Char) := do
  let (hour, s) ← fixed? 2 0 23 s
  let (minute, s) ← fixed? 2 0 59 (← after? ':' s)
  let (second, s) ← fixed? 2 0 59 (← after? ':' s)
  let (micro, s) := micros s
  return (⟨hour, minute, second, micro⟩, s)

/-- A date at the front of a text. -/
def date? (s : List Char) : Option (Date × List Char) := do
  let (year, s) ← fixed? 4 0 9999 s
  let (month, s) ← fixed? 2 1 12 (← after? '-' s)
  let (day, s) ← fixed? 2 1 31 (← after? '-' s)
  return (⟨year, month, day⟩, s)

/-- An offset from universal time at the front of a text, in minutes. -/
def offset? (s : List Char) : Option (Int × List Char) := do
  match s with
  | c :: s =>
      if c = 'Z' || c = 'z' then return (0, s)
      if c != '+' && c != '-' then failure
      let (hour, s) ← fixed? 2 0 23 s
      let (minute, s) ← fixed? 2 0 59 (← after? ':' s)
      let n : Nat := 60 * hour + minute
      return (if c = '-' then -(n : Int) else n, s)
  | [] => failure

/-- Does the year have a day more in February? -/
def isLeapYear (year : Nat) : Bool :=
  year % 4 = 0 && (year % 100 != 0 || year % 400 = 0)

/-- The number of days of a month. -/
def daysOf (year month : Nat) : Nat :=
  if month = 2 then (if isLeapYear year then 29 else 28)
  else if month = 4 || month = 6 || month = 9 || month = 11 then 30
  else 31

/-- Is the date in the calendar? Years are counted from one. -/
def Date.isValid (d : Date) : Bool := 1 ≤ d.year && d.day ≤ daysOf d.year d.month

/-- The time behind a date: after a letter T or a space. -/
def timeAfterDate? (s : List Char) : Option (TimeOfDay × List Char) :=
  match s with
  | c :: s => if c = 'T' || c = 't' || c = ' ' then time? s else none
  | [] => none

/-- A date, a moment or a time at the front of a text. -/
def dateTime? (s : List Char) : Except Fault (Option (Value × List Char)) :=
  match date? s with
  | some (d, s) =>
      if !Date.isValid d then .error .malformed
      else
        match timeAfterDate? s with
        | none => .ok (some (.date d, s))
        | some (t, s) =>
            match offset? s with
            | some (minutes, s) => .ok (some (.moment d t (some minutes), s))
            | none => .ok (some (.moment d t none, s))
  | none => .ok ((time? s).map fun r => (.time r.1, r.2))

/-! ### Tables -/

/-- Changes the fields of the table behind a path of names. Tables that are missing are made; with
`throughArrays`, the last item of an array stands for the array. `none` if something on the path is
no table, or if the change is refused. -/
def changeNest (throughArrays : Bool) (f : Fields → Option Fields) :
    List String → Fields → Option Fields
  | [], fields => f fields
  | name :: names, fields =>
      let replace (v : Value) : Fields :=
        fields.map fun p => if p.1 = name then (name, v) else p
      match fields.lookup name with
      | none => do return fields ++ [(name, .table (← changeNest throughArrays f names []))]
      | some (.table inner) => do return replace (.table (← changeNest throughArrays f names inner))
      | some (.array items) =>
          if !throughArrays then none
          else
            match items.getLast? with
            | some (.table inner) => do
                let last ← changeNest throughArrays f names inner
                return replace (.array (items.dropLast ++ [.table last]))
            | _ => none
      | some _ => none

/-- Adds a field unless there is one of the same name. -/
def addField (name : String) (v : Value) (fields : Fields) : Option Fields :=
  if fields.any fun f => f.1 = name then none else some (fields ++ [(name, v)])

/-- Is the value a table or an array? -/
def isNest : Value → Bool
  | .table _ => true
  | .array _ => true
  | _ => false

/-- Is a path, or a part of it from its beginning, one of some closed paths? -/
def isClosed (closed : List (List String)) (path : List String) : Bool :=
  closed.any fun p => p.isPrefixOf path

/-! ### Values -/

/-- Takes what was found at the front of the text, if anything was. -/
def accept {α : Type} (found : Option (α × List Char)) : Read (Option α) := do
  match found with
  | some (a, rest) =>
      set rest
      return some a
  | none => return none

/-- Reads a value that holds no other ones, if one begins at the front. -/
def simpleValue? : Read (Option Value) := do
  if let some s ← string? then return some (.text s)
  if ← skip? "true".toList then return some (.bool true)
  if ← skip? "false".toList then return some (.bool false)
  if let some v ← accept (← dateTime? (← get)) then return some v
  if let some v ← accept (← number? (← get)) then return some v
  accept (specialNumber? (← get))

mutual

/-- Reads a value. -/
def value : Nat → Read Value
  | 0 => refuse
  | n + 1 => do
      if ← skip? ['['] then return .array (← arrayItems n)
      else if ← skip? ['\x7b'] then
        skipBlanks
        if ← skip? ['\x7d'] then return .table []
        return .table (← inlineFields n [] [])
      else
        match ← simpleValue? with
        | some v => return v
        | none => refuse

/-- Reads the items of an array and its end; a comma may stand behind the last item. -/
def arrayItems : Nat → Read (List Value)
  | 0 => refuse
  | n + 1 => do
      skipLayout ((← get).length + 1)
      if ← skip? [']'] then return []
      let v ← value n
      skipLayout ((← get).length + 1)
      if ← skip? [','] then return v :: (← arrayItems n)
      expect [']']
      return [v]

/-- Reads the fields of an inline table and its end, with the fields before them, and with the paths
behind which nothing can be added. -/
def inlineFields : Nat → Fields → List (List String) → Read Fields
  | 0, _, _ => refuse
  | n + 1, fields, closed => do
      let path ← key
      skipBlanks
      expect ['=']
      skipBlanks
      let v ← value n
      if isClosed closed path then refuse
      match changeNest false (addField (path.getLastD "") v) path.dropLast fields with
      | none => refuse
      | some fields =>
          skipBlanks
          if ← skip? ['\x7d'] then return fields
          expect [',']
          skipBlanks
          inlineFields n fields (if isNest v then path :: closed else closed)

end

end YamlNavigator.Toml
