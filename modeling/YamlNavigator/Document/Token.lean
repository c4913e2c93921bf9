/-!
The tokens of a document and the stream that they form.

* `TokenKind`: what a token is to a reader of the document;
* `Position`, `Token`: a token holds its text together with the white space before it;
* `Stream`: the tokens in order, with the look-up of neighbours;
* `Stream.text`: the texts of all tokens put together;
* `Stream.IsIndexed`: every token carries its position in the stream as its index; streams read from
  a document are indexed, and in them every neighbour is found.
-/

namespace YamlNavigator

/-- What a token is to a reader of the document. -/
inductive TokenKind where
  | string
  | singleQuotedString
  | doubleQuotedString
  | integer
  | float
  | bool
  | null
  | anchor
  | reference
  | mappingValueIndicator
  | blockStructureIndicator
  | flowIndicator
  | documentIndicator
  | tag
  | directive
  | comment
  | other
  deriving DecidableEq, Repr, Inhabited

namespace TokenKind

/-- Does the kind mark structure rather than content? -/
def isIndicator : TokenKind → Bool
  | mappingValueIndicator | blockStructureIndicator | flowIndicator | documentIndicator => true
  | _ => false

/-- Does the kind introduce the token after it, as colons, hyphens and question marks do? -/
def isBlockStructure : TokenKind → Bool
  | mappingValueIndicator | blockStructureIndicator => true
  | _ => false

end TokenKind

/-- Where the significant text of a token starts: line and column counted from one, and the column
where the content of that line starts. -/
structure Position where
  line : Int
  column : Int
  indent : Int
  deriving DecidableEq, Repr, Inhabited

/-- A token: its kind, its text with the white space before it, its position, and its place in the
stream. -/
structure Token where
  kind : TokenKind
  origin : String
  position : Position
  index : Int
  deriving DecidableEq, Repr, Inhabited

/-- White space that can stand in front of a token. -/
def Token.isSpace (c : Char) : Bool :=
  c = ' ' || c = '\t' || c = '\r' || c = '\n'

/-- The text of a token without the white space before it. -/
def Token.value (t : Token) : String :=
  String.ofList (t.origin.toList.dropWhile Token.isSpace)

/-- A place outside a stream was asked for. -/
structure NoSuchToken where
  deriving DecidableEq, Repr

/-- The wording of the fault. -/
def NoSuchToken.message (_ : NoSuchToken) : String := "tuple index out of range"

/-- Tokens in the order of the text. -/
structure Stream where
  tokens : Array Token
  deriving DecidableEq, Repr

namespace Stream

/-- The number of tokens. -/
def size (s : Stream) : Nat := s.tokens.size

/-- The token at a place; a negative place counts from the end. -/
def at? (s : Stream) (place : Int) : Except NoSuchToken Token :=
  let i := if place < 0 then place + s.size else place
  if i < 0 then .error {}
  else
    match s.tokens[i.toNat]? with
    | some t => .ok t
    | none => .error {}

/-- The token before a token, if its index says that there is one. -/
def previous (s : Stream) (t : Token) : Except NoSuchToken (Option Token) :=
  if t.index ≤ 0 then .ok none else (s.at? (t.index - 1)).map some

/-- The token after a token, if its index says that there is one. -/
def next (s : Stream) (t : Token) : Except NoSuchToken (Option Token) :=
  if s.size ≤ t.index + 1 then .ok none else (s.at? (t.index + 1)).map some

/-- The kind of the token before a token. -/
def previousKind (s : Stream) (t : Token) : Except NoSuchToken (Option TokenKind) :=
  (s.previous t).map (·.map Token.kind)

/-- The kind of the token after a token. -/
def nextKind (s : Stream) (t : Token) : Except NoSuchToken (Option TokenKind) :=
  (s.next t).map (·.map Token.kind)

/-- The texts of all tokens, put together. -/
def text (s : Stream) : String :=
  String.ofList (s.tokens.toList.flatMap (·.origin.toList))

/-- Every token carries its place as its index. -/
def IsIndexed (s : Stream) : Prop :=
  ∀ (i : Nat) (t : Token), s.tokens[i]? = some t → t.index = i

/-- A place counted from the front holds the token that stands there. -/
theorem at?_natCast (s : Stream) {i : Nat} (h : i < s.tokens.size) :
    s.at? i = .ok s.tokens[i] := by
  rw [at?, if_neg (show ¬((i : Int) < 0) by omega)]
  simp only [Int.toNat_natCast]
  rw [if_neg (by omega), Array.getElem?_eq_getElem h]

/-- In an indexed stream the token before another is its neighbour. -/
theorem previous_of_isIndexed {s : Stream} (h : s.IsIndexed) {i : Nat} {t : Token}
    (ht : s.tokens[i]? = some t) :
    s.previous t = .ok (if i = 0 then none else s.tokens[i - 1]?) := by
  have hi := h i t ht
  obtain ⟨hlt, -⟩ := Array.getElem?_eq_some_iff.mp ht
  rw [previous, hi]
  cases i with
  | zero => simp
  | succ i =>
      have hj : (((i + 1 : Nat) : Int) - 1) = (i : Int) := by omega
      have hlt' : i < s.tokens.size := by omega
      rw [if_neg (by omega), hj, at?_natCast s hlt']
      simp [hlt', Except.map]

/-- In an indexed stream the token after another is its neighbour. -/
theorem next_of_isIndexed {s : Stream} (h : s.IsIndexed) {i : Nat} {t : Token}
    (ht : s.tokens[i]? = some t) : s.next t = .ok s.tokens[i + 1]? := by
  have hi := h i t ht
  rw [next, hi]
  by_cases hlt : i + 1 < s.tokens.size
  · have hj : ((i : Int) + 1) = ((i + 1 : Nat) : Int) := by omega
    rw [if_neg (by rw [size]; omega), hj, at?_natCast s hlt]
    simp [hlt, Except.map]
  · rw [if_pos (by rw [size]; omega)]
    simp [hlt]

end Stream

end YamlNavigator
