import YamlNavigator.Text.Blank
import YamlNavigator.Text.Quoted

/-!
Whole numbers as text.

* `Integer.Fault`: why a text is not read as a whole number;
* `Integer.ofText`: reads an optional sign and decimal digits of any script, with single
  underscores between digits and blanks around the number;
* `Integer.toText`: writes the decimal digits of a number, if they are not too many;
* `Integer.grouped`: the decimal digits with a comma between groups of three;
* `Integer.padded`: the decimal digits with zeros in front up to a width.
-/

namespace YamlNavigator.Text.Integer

/-- The largest number of decimal digits that a number is read from or written with. -/
def digitLimit : Nat := 4300

/-- Why a text is not read as a whole number. -/
inductive Fault where
  /-- The text is no number. -/
  | notANumber (text : String)
  /-- The number is written with more digits than are accepted. -/
  | tooManyDigits (count : Nat)
  /-- The number would be written with more digits than are accepted. -/
  | tooManyToWrite
  deriving DecidableEq, Repr

/-- The wording of a fault; the text shown in it is cut off after 200 characters. -/
def Fault.message : Fault → String
  | .notANumber text =>
      "invalid literal for int() with base 10: " ++
        String.ofList ((quotedChars text.toList).take 200)
  | .tooManyDigits count =>
      s!"Exceeds the limit ({digitLimit} digits) for integer string conversion: " ++
        s!"value has {count} digits; use sys.set_int_max_str_digits() to increase the limit"
  | .tooManyToWrite =>
      s!"Exceeds the limit ({digitLimit} digits) for integer string conversion; use " ++
        "sys.set_int_max_str_digits() to increase the limit"

/-- The blanks allowed around a number: all but the information separators. -/
def isOuterBlank (c : Char) : Bool :=
  isBlank c && !(0x1c ≤ c.toNat && c.toNat ≤ 0x1f)

/-- The values of the digits at the head of a text, and the text after them. A single underscore may
stand between two digits; `none` if one stands elsewhere. -/
def digitRun : List Char → Option (List Nat × List Char)
  | [] => some ([], [])
  | '_' :: c :: s =>
      match digitValue? c with
      | none => none
      | some v => (digitRun s).map fun r => (v :: r.1, r.2)
  | c :: s =>
      match digitValue? c with
      | some v => (digitRun s).map fun r => (v :: r.1, r.2)
      | none => if c = '_' then none else some ([], c :: s)

/-- The number that digit values write in base ten. -/
def ofDigits (ds : List Nat) : Nat :=
  ds.foldl (fun n d => 10 * n + d) 0

/-- A sign at the head of a text, and the text after it. -/
def signOf : List Char → Bool × List Char
  | '-' :: s => (true, s)
  | '+' :: s => (false, s)
  | s => (false, s)

/-- Reads a whole number. -/
def ofText (text : String) : Except Fault Int :=
  let (negative, body) := signOf (stripIf isOuterBlank text.toList)
  match body with
  | '_' :: _ => .error (.notANumber text)
  | _ =>
      match digitRun body with
      | none => .error (.notANumber text)
      | some ([], _) => .error (.notANumber text)
      | some (ds, rest) =>
          if digitLimit < ds.length then .error (.tooManyDigits ds.length)
          else if !rest.isEmpty then .error (.notANumber text)
          else .ok (if negative then -Int.ofNat (ofDigits ds) else Int.ofNat (ofDigits ds))

/-- The decimal digits of a number. -/
def decimal (n : Nat) : List Char :=
  Nat.toDigits 10 n

/-- Writes a whole number in decimal digits. -/
def toText (n : Int) : Except Fault String :=
  let ds := decimal n.natAbs
  if digitLimit < ds.length then .error .tooManyToWrite
  else .ok (String.ofList (if n < 0 then '-' :: ds else ds))

/-- Digits in reverse order with a comma after each group of three. -/
def groupReversed : List Char → List Char
  | a :: b :: c :: d :: s => a :: b :: c :: ',' :: groupReversed (d :: s)
  | s => s

/-- The decimal digits of a number with a comma between groups of three. -/
def grouped (n : Int) : String :=
  let ds := (groupReversed (decimal n.natAbs).reverse).reverse
  String.ofList (if n < 0 then '-' :: ds else ds)

/-- The decimal digits of a number with zeros in front up to a width. -/
def padded (width n : Nat) : String :=
  let ds := decimal n
  String.ofList (List.replicate (width - ds.length) '0' ++ ds)

end YamlNavigator.Text.Integer
