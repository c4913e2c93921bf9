import YamlNavigator.Yaml.Lexeme.Block
import YamlNavigator.Yaml.Lexeme.Directive
import YamlNavigator.Yaml.Lexeme.Plain
import YamlNavigator.Yaml.Lexeme.Quoted

/-!
The lexical units of a whole text.

Block collections have no brackets: their extent is found from columns. A key written without a
question mark is recognised only at the colon behind it, so every place where such a key may have
begun is kept in mind until the colon comes or can come no more.

* `PendingKey`: a place where a key may have begun;
* `Context`: what has been read, with the indentations of the open block collections and the pending
  keys;
* `Context.unwind`, `Context.savePending`, `Context.dropPending`, `Context.dropStale`: the
  operations on it;
* `Context.read`: reads the next unit;
* `Lexeme.scan`: the units of a text.
-/

namespace YamlNavigator.Yaml

/-- A place where a key without a question mark may have begun: the number of units before it, its
mark, and whether nothing but a key can stand there. -/
structure PendingKey where
  slot : Nat
  required : Bool
  mark : Mark
  deriving DecidableEq, Repr

/-- What has been read. The indentations of the open block collections are listed from the innermost
one. The flow level counts open brackets and braces, and falls below zero where one is closed that
was not opened. At most one key is pending at each flow level. -/
structure Context where
  lexemes : Array Lexeme
  indents : List Nat
  flowLevel : Int
  keyAllowed : Bool
  pending : List (Int × PendingKey)
  deriving Repr

namespace Context

/-- Before the first character, a stream has just begun. -/
def start : Context where
  lexemes := #[⟨.streamStart, Mark.start, Mark.start⟩]
  indents := []
  flowLevel := 0
  keyAllowed := true
  pending := []

/-- The indentation of the innermost block collection; `-1` outside of all. -/
def indent (x : Context) : Int :=
  match x.indents with
  | [] => -1
  | i :: _ => i

/-- Inside brackets or braces, indentation means nothing. -/
def inFlow (x : Context) : Bool := x.flowLevel != 0

/-- Appends a unit. -/
def push (x : Context) (l : Lexeme) : Context :=
  { x with lexemes := x.lexemes.push l }

/-- Appends a unit without text. -/
def pushEmpty (x : Context) (content : Content) (mark : Mark) : Context :=
  x.push ⟨content, mark, mark⟩

/-! ### Indentation -/

/-- The indentations that remain open at a column, and the number of those that end there. -/
def closing (column : Int) : List Nat → List Nat × Nat
  | [] => ([], 0)
  | i :: is =>
      if column < i then
        let r := closing column is
        (r.1, r.2 + 1)
      else (i :: is, 0)

/-- Ends the block collections that are indented more than a column. -/
def unwind (x : Context) (column : Int) (mark : Mark) : Context :=
  if x.inFlow then x
  else
    let r := closing column x.indents
    { x with
      indents := r.1
      lexemes := x.lexemes ++ Array.replicate r.2 ⟨.blockEnd, mark, mark⟩ }

/-- Does a block collection begin at a column? -/
def opensAt (x : Context) (column : Nat) : Bool := x.indent < column

/-- Begins a block collection at a mark, if its column is indented more than the innermost one. -/
def openBlock (x : Context) (content : Content) (mark : Mark) : Context :=
  if x.opensAt mark.column then
    { x with indents := mark.column :: x.indents }.pushEmpty content mark
  else x

/-! ### Pending keys -/

/-- The key that is pending at the current flow level. -/
def pendingHere? (x : Context) : Option PendingKey :=
  (x.pending.find? fun p => p.1 == x.flowLevel).map (·.2)

/-- The context without the key pending at the current flow level. -/
def forgetPending (x : Context) : Context :=
  { x with pending := x.pending.filter fun p => p.1 != x.flowLevel }

/-- Gives up the key pending at the current flow level. It is an error if it had to be one. -/
def dropPending (x : Context) : Scan Context := do
  if x.pendingHere?.any (·.required) then Scan.fail .missingColon
  return x.forgetPending

/-- Keeps in mind that a key may begin at the cursor. -/
def savePending (x : Context) : Scan Context := do
  if !x.keyAllowed then return x
  let mark ← Scan.here
  let required := !x.inFlow && x.indent == mark.column
  let x ← x.dropPending
  return { x with pending := x.pending ++ [(x.flowLevel, ⟨x.lexemes.size, required, mark⟩)] }

/-- A key without a question mark is written on one line, in at most this many characters. -/
def keyLimit : Nat := 1024

/-- Can the colon of a pending key no more come at a mark? -/
def isStale (mark : Mark) (key : PendingKey) : Bool :=
  key.mark.line != mark.line || key.mark.index + keyLimit < mark.index

/-- Gives up the pending keys whose colon can no more come. It is an error if one had to be a
key. -/
def dropStale (x : Context) : Scan Context := do
  let mark ← Scan.here
  if x.pending.any fun p => isStale mark p.2 && p.2.required then Scan.fail .missingColon
  return { x with pending := x.pending.filter fun p => !isStale mark p.2 }

/-! ### The units -/

/-- Moves over blanks, comments and line breaks. After a line break, a key may begin outside flow
collections. -/
def skipBlanks (x : Context) : Scan Context := do
  if (← Scan.here).index == 0 && (← Scan.nextIs '\ufeff') then Scan.advance 1
  Scan.iterate
    (fun x => do
      Scan.skipWhile (· = ' ')
      if ← Scan.nextIs '#' then Scan.skipWhile fun c => !isBreak c
      match ← Scan.lineBreak with
      | none => return .done x
      | some _ => return .yield (if x.inFlow then x else { x with keyAllowed := true }))
    x

/-- Reads a unit of a fixed number of characters. -/
def readMark (x : Context) (content : Content) (length : Nat) : Scan Context := do
  let start ← Scan.here
  Scan.advance length
  return x.push ⟨content, start, ← Scan.here⟩

/-- Ends all block collections and pending keys, as the units between documents do. -/
def closeDocument (x : Context) : Scan Context := do
  let x := x.unwind (-1) (← Scan.here)
  let x ← x.dropPending
  return { x with keyAllowed := false }

/-- Reads the end of the text. -/
def readEnd (x : Context) : Scan Context := do
  let x ← x.closeDocument
  return { x with pending := [] }.pushEmpty .streamEnd (← Scan.here)

/-- Reads a directive. -/
def readDirective (x : Context) : Scan Context := do
  let x ← x.closeDocument
  return x.push (← Scan.directiveLexeme)

/-- Reads a marker between documents. -/
def readSeparator (x : Context) (content : Content) : Scan Context := do
  let x ← x.closeDocument
  x.readMark content 3

/-- Reads an opening bracket or brace. -/
def readFlowStart (x : Context) (content : Content) : Scan Context := do
  let x ← x.savePending
  { x with flowLevel := x.flowLevel + 1, keyAllowed := true }.readMark content 1

/-- Reads a closing bracket or brace. -/
def readFlowEnd (x : Context) (content : Content) : Scan Context := do
  let x ← x.dropPending
  { x with flowLevel := x.flowLevel - 1, keyAllowed := false }.readMark content 1

/-- Reads the comma between the entries of a flow collection. -/
def readFlowEntry (x : Context) : Scan Context := do
  let x ← x.dropPending
  { x with keyAllowed := true }.readMark .flowEntry 1

/-- Begins a block collection at the cursor for an indicator that may stand only where a key may
begin. -/
def openBlockHere (x : Context) (content : Content) (refusal : Problem) : Scan Context := do
  if x.inFlow then return x
  if !x.keyAllowed then Scan.fail refusal
  return x.openBlock content (← Scan.here)

/-- Reads the hyphen of a block sequence entry. -/
def readBlockEntry (x : Context) : Scan Context := do
  let x ← x.openBlockHere .blockSequenceStart .sequenceEntryNotAllowed
  let x ← x.dropPending
  { x with keyAllowed := true }.readMark .blockEntry 1

/-- Reads the question mark of a key. -/
def readKey (x : Context) : Scan Context := do
  let x ← x.openBlockHere .blockMappingStart .mappingKeyNotAllowed
  let x ← x.dropPending
  { x with keyAllowed := !x.inFlow }.readMark .key 1

/-- Puts the units of a recognised key in front of it: the key itself, and the mapping that begins
with it. -/
def insertKey (x : Context) (key : PendingKey) : Context :=
  let opens := !x.inFlow && x.opensAt key.mark.column
  let withKey := x.lexemes.insertIdxIfInBounds key.slot ⟨.key, key.mark, key.mark⟩
  if opens then
    { x with
      indents := key.mark.column :: x.indents
      lexemes := withKey.insertIdxIfInBounds key.slot ⟨.blockMappingStart, key.mark, key.mark⟩ }
  else { x with lexemes := withKey }

/-- Reads the colon in front of a value. -/
def readValue (x : Context) : Scan Context := do
  match x.pendingHere? with
  | some key =>
      let x := x.forgetPending.insertKey key
      { x with keyAllowed := false }.readMark .value 1
  | none =>
      let x ← x.openBlockHere .blockMappingStart .mappingValueNotAllowed
      let x ← x.dropPending
      { x with keyAllowed := !x.inFlow }.readMark .value 1

/-- Reads a unit that may be a key or begin one. -/
def readNode (x : Context) (unit : Scan Lexeme) : Scan Context := do
  let x ← x.savePending
  return { x with keyAllowed := false }.push (← unit)

/-- Reads a block scalar. -/
def readBlock (x : Context) (folded : Bool) : Scan Context := do
  let x ← x.dropPending
  return { x with keyAllowed := true }.push (← Scan.blockLexeme folded x.indent)

/-- Reads a plain scalar. A key may begin behind it if a line break was crossed. -/
def readPlain (x : Context) : Scan Context := do
  let x ← x.savePending
  let (l, broken) ← Scan.plainLexeme x.inFlow x.indent
  return { x with keyAllowed := broken }.push l

/-- Reads the unit that begins with the character `c`. -/
def readAt (x : Context) (c : Char) : Scan Context := do
  let atMargin := (← Scan.column) == 0
  let after ← Scan.peek 1
  let spaced := after.all isBlankOrBreak
  if c = '%' && atMargin then x.readDirective
  else if c = '-' && atMargin && (← Scan.atSeparator) then x.readSeparator .documentStart
  else if c = '.' && atMargin && (← Scan.atSeparator) then x.readSeparator .documentEnd
  else if c = '[' then x.readFlowStart .flowSequenceStart
  else if c = '\x7b' then x.readFlowStart .flowMappingStart
  else if c = ']' then x.readFlowEnd .flowSequenceEnd
  else if c = '\x7d' then x.readFlowEnd .flowMappingEnd
  else if c = ',' then x.readFlowEntry
  else if c = '-' && spaced then x.readBlockEntry
  else if c = '?' && (x.inFlow || spaced) then x.readKey
  else if c = ':' && (x.inFlow || spaced) then x.readValue
  else if c = '*' then x.readNode (Scan.namedLexeme .reference)
  else if c = '&' then x.readNode (Scan.namedLexeme .anchor)
  else if c = '!' then x.readNode Scan.tagLexeme
  else if c = '|' && !x.inFlow then x.readBlock false
  else if c = '>' && !x.inFlow then x.readBlock true
  else if c = '\x27' then x.readNode (Scan.quotedLexeme false)
  else if c = '\x22' then x.readNode (Scan.quotedLexeme true)
  else if Scan.startsPlain x.inFlow c after then x.readPlain
  else Scan.fail (.cannotStart c)

/-- Reads the next unit, or the end of the text. -/
def read (x : Context) : Scan (ForInStep Context) := do
  let x ← x.skipBlanks
  let x ← x.dropStale
  let x := x.unwind (← Scan.column) (← Scan.here)
  match ← Scan.peek 0 with
  | none => return .done (← x.readEnd)
  | some c => return .yield (← (← x.readAt c).dropStale)

end Context

/-- The characters that a YAML text may hold. -/
def isAcceptable (c : Char) : Bool :=
  let n := c.toNat
  n == 0x9 || n == 0xa || n == 0xd || (0x20 ≤ n && n ≤ 0x7e) || n == 0x85 ||
    (0xa0 ≤ n && n ≤ 0xd7ff) || (0xe000 ≤ n && n ≤ 0xfffd) || 0x10000 ≤ n

/-- The first character that a YAML text may not hold, with its offset. -/
def firstUnacceptable? (s : List Char) : Option (Char × Nat) :=
  (s.zipIdx).find? fun p => !isAcceptable p.1

/-- The lexical units of a text, from the start to the end of the stream. -/
def Lexeme.scan (s : List Char) : Except Failure (List Lexeme) :=
  match firstUnacceptable? s with
  | some (c, offset) => .error (.unacceptable c offset)
  | none =>
      ((Scan.iterate Context.read Context.start).run (Cursor.ofText s)).map (·.1.lexemes.toList)

end YamlNavigator.Yaml
