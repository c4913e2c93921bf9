import YamlNavigator.Decimal.Shortest
import YamlNavigator.Text.Integer

/-!
The values of a configuration document, and what they become as settings.

* `Date`, `TimeOfDay`, `Value`: the values;
* `Value.typeName`: how the type of a value is called in messages;
* `Value.Fault`, `Value.Fault.message`: why a value cannot be used;
* `Value.shown`, `Value.asText`: a value as it is shown inside another one, and by itself;
* `Value.asBool`, `Value.asInteger`: a value as a truth value and as a whole number;
* `Value.holds`, `Value.get`, `Value.get?`: looking up a name in a value.
-/

namespace YamlNavigator

open Text

/-- A day of the calendar. -/
structure Date where
  year : Nat
  month : Nat
  day : Nat
  deriving DecidableEq, Repr, Inhabited

/-- A time of the day, to the millionth of a second. -/
structure TimeOfDay where
  hour : Nat
  minute : Nat
  second : Nat
  micro : Nat
  deriving DecidableEq, Repr, Inhabited

/-- A value of a configuration document. A moment may have an offset from universal time, in
minutes. -/
inductive Value where
  | null
  | bool (b : Bool)
  | integer (n : Int)
  | float (x : Binary64)
  | text (s : String)
  | date (d : Date)
  | time (t : TimeOfDay)
  | moment (d : Date) (t : TimeOfDay) (offset : Option Int)
  | array (items : List Value)
  | table (fields : List (String × Value))
  deriving Repr, Inhabited

/-- The fields of a table, in the order in which they were first written. -/
abbrev Fields := List (String × Value)

namespace Value

/-- How the type of a value is called in messages. -/
def typeName : Value → String
  | null => "NoneType"
  | bool _ => "bool"
  | integer _ => "int"
  | float _ => "float"
  | text _ => "str"
  | date _ => "datetime.date"
  | time _ => "datetime.time"
  | moment _ _ _ => "datetime.datetime"
  | array _ => "list"
  | table _ => "dict"

/-- Why a value cannot be used. -/
inductive Fault where
  /-- A name is looked up in a value that holds nothing. -/
  | notContainer (typeName : String)
  /-- A name is looked up in a text. -/
  | nameOfText
  /-- A name is looked up in an array. -/
  | nameOfArray
  /-- The value is no whole number. -/
  | notInteger (typeName : String)
  /-- An infinity is no whole number. -/
  | infinite
  /-- What is no number at all is no whole number. -/
  | notANumber
  /-- A text is no whole number, or a number is too long. -/
  | digits (fault : Integer.Fault)
  /-- A text is none of the names of a choice. -/
  | notAChoice (setting : String) (choices : List String) (text : String)
  deriving DecidableEq, Repr

/-- The wording of a fault. -/
def Fault.message : Fault → String
  | .notContainer name => s!"argument of type '{name}' is not iterable"
  | .nameOfText => "string indices must be integers, not 'str'"
  | .nameOfArray => "list indices must be integers or slices, not str"
  | .notInteger name =>
      s!"int() argument must be a string, a bytes-like object or a real number, not '{name}'"
  | .infinite => "cannot convert float infinity to integer"
  | .notANumber => "cannot convert float NaN to integer"
  | .digits fault => fault.message
  | .notAChoice setting choices found =>
      let names := ", ".intercalate choices
      s!"{setting} must be one of {names}, got {quoted found}"

/-! ### Text -/

/-- Floating point numbers are written with the point among the digits between `0.0001` and `10 ^
16`, and otherwise with an exponent of at least two digits. -/
def floatFormat : FloatFormat := ⟨-3, 16, 2⟩

/-- A day as year, month and day with hyphens. -/
def dateText (d : Date) : String :=
  s!"{Integer.padded 4 d.year}-{Integer.padded 2 d.month}-{Integer.padded 2 d.day}"

/-- A time as hour, minute and second with colons, and with the millionths if there are any. -/
def timeText (t : TimeOfDay) : String :=
  s!"{Integer.padded 2 t.hour}:{Integer.padded 2 t.minute}:{Integer.padded 2 t.second}" ++
    if t.micro = 0 then "" else s!".{Integer.padded 6 t.micro}"

/-- An offset as sign, hours and minutes. -/
def offsetText (minutes : Int) : String :=
  let sign := if minutes < 0 then "-" else "+"
  let n := minutes.natAbs
  s!"{sign}{Integer.padded 2 (n / 60)}:{Integer.padded 2 (n % 60)}"

/-- Numbers with commas between them. -/
def listed (ns : List Nat) : String := ", ".intercalate (ns.map toString)

/-- The parts of a time that are shown: hour and minute always, the others up to the last one that
is not zero. -/
def timeParts (t : TimeOfDay) : List Nat :=
  [t.hour, t.minute] ++
    if t.micro != 0 then [t.second, t.micro] else if t.second != 0 then [t.second] else []

/-- An offset as it is shown: in days and seconds. -/
def shownOffset (minutes : Int) : String :=
  if minutes = 0 then "datetime.timezone.utc"
  else
    let seconds := 60 * minutes
    if seconds < 0 then
      s!"datetime.timezone(datetime.timedelta(days=-1, seconds={86400 + seconds}))"
    else s!"datetime.timezone(datetime.timedelta(seconds={seconds}))"

mutual

/-- A value as it is shown inside another one. -/
def shown : Value → Except Fault String
  | null => .ok "None"
  | bool b => .ok (if b then "True" else "False")
  | integer n => (Integer.toText n).mapError .digits
  | float x => .ok (floatFormat.write x)
  | text s => .ok (quoted s)
  | date d => .ok s!"datetime.date({listed [d.year, d.month, d.day]})"
  | time t => .ok s!"datetime.time({listed (timeParts t)})"
  | moment d t offset =>
      let zone := (offset.map fun m => s!", tzinfo={shownOffset m}").getD ""
      .ok s!"datetime.datetime({listed ([d.year, d.month, d.day] ++ timeParts t)}{zone})"
  | array items => do
      return "[" ++ ", ".intercalate (← shownItems items) ++ "]"
  | table fields => do
      return "\x7b" ++ ", ".intercalate (← shownFields fields) ++ "\x7d"

/-- Values as they are shown inside an array. -/
def shownItems : List Value → Except Fault (List String)
  | [] => .ok []
  | v :: vs => do
      let s ← shown v
      return s :: (← shownItems vs)

/-- Fields as they are shown inside a table. -/
def shownFields : List (String × Value) → Except Fault (List String)
  | [] => .ok []
  | (name, v) :: fs => do
      let s ← shown v
      return s!"{quoted name}: {s}" :: (← shownFields fs)

end

/-- A value as a text. -/
def asText : Value → Except Fault String
  | text s => .ok s
  | date d => .ok (dateText d)
  | time t => .ok (timeText t)
  | moment d t offset =>
      let zone := (offset.map offsetText).getD ""
      .ok s!"{dateText d} {timeText t}{zone}"
  | v => shown v

/-! ### Truth values and numbers -/

/-- A value as a truth value: nothing, zero and what is empty are false. -/
def asBool : Value → Bool
  | null => false
  | bool b => b
  | integer n => n != 0
  | float x => !x.isZero
  | text s => !s.isEmpty
  | date _ => true
  | time _ => true
  | moment _ _ _ => true
  | array items => !items.isEmpty
  | table fields => !fields.isEmpty

/-- A value as a whole number: the whole part of a number, or the number that a text writes. -/
def asInteger : Value → Except Fault Int
  | bool b => .ok (if b then 1 else 0)
  | integer n => .ok n
  | float (.finite negative m e) => .ok (Binary64.truncate negative m e)
  | float (.infinite _) => .error .infinite
  | float .notANumber => .error .notANumber
  | text s => (Integer.ofText s).mapError .digits
  | v => .error (.notInteger v.typeName)

/-! ### Looking up names -/

/-- Does a text occur in another one? -/
def occursIn (s : List Char) : List Char → Bool
  | [] => s.isEmpty
  | c :: t => s.isPrefixOf (c :: t) || occursIn s t

/-- Is the value this text? -/
def isText (name : String) : Value → Bool
  | text s => s = name
  | _ => false

/-- Does a value hold a name: as a field, as an item, or as a part of a text? -/
def holds (v : Value) (name : String) : Except Fault Bool :=
  match v with
  | table fields => .ok (fields.any fun f => f.1 = name)
  | array items => .ok (items.any (isText name))
  | text s => .ok (occursIn name.toList s.toList)
  | v => .error (.notContainer v.typeName)

/-- The value of a name. Only a table has one. -/
def get (v : Value) (name : String) : Except Fault Value :=
  match v with
  | table fields => .ok ((fields.lookup name).getD null)
  | array _ => .error .nameOfArray
  | text _ => .error .nameOfText
  | v => .error (.notContainer v.typeName)

/-- The value of a name, if the value holds the name. -/
def get? (v : Value) (name : String) : Except Fault (Option Value) := do
  if ← v.holds name then return some (← v.get name) else return none

end Value

end YamlNavigator
