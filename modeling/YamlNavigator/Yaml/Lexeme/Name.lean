import YamlNavigator.Yaml.Scan

/-!
Anchors, aliases and tags.

* `Scan.namedLexeme`: an ampersand or an asterisk with a name;
* `Scan.tagHandle`, `Scan.tagUri`: the two parts of a tag;
* `Scan.tagLexeme`: a tag in one of its three forms: in full between angle brackets, the lone
  exclamation mark, or a handle with a suffix.
-/

namespace YamlNavigator.Yaml.Scan

open Text

/-! ### Anchors and aliases -/

/-- The characters that may stand directly after a name, besides blanks and line breaks. -/
def endsName (c : Char) : Bool :=
  isBlankOrBreak c || ['?', ':', ',', ']', '\x7d', '%', '@', '\x60'].contains c

/-- Reads an indicator and the name after it. -/
def namedLexeme (content : String → Content) : Scan Lexeme := do
  let start ← here
  advance 1
  let name ← takeWhile isNameChar
  let c ← peek 0
  if name.isEmpty || !c.all endsName then fail (.expectedNameCharacter c)
  return ⟨content (String.ofList name), start, ← here⟩

/-! ### Tags -/

/-- The characters of a tag besides letters and digits. -/
def uriMarks : List Char :=
  ['-', ';', '/', '?', ':', '@', '&', '=', '+', '$', ',', '_', '.', '!', '~', '*', '\x27', '(', ')',
    '[', ']', '%']

/-- The characters of a tag. -/
def isUriChar (c : Char) : Bool :=
  isAsciiDigit c || ('A' ≤ c && c ≤ 'Z') || ('a' ≤ c && c ≤ 'z') || uriMarks.contains c

/-- Reads a tag handle: an exclamation mark, which a name and a second mark may follow. -/
def tagHandle : Scan (List Char) := do
  let c ← peek 0
  if c != some '!' then fail (.expectedExclamation c)
  advance 1
  if ← nextIs ' ' then return ['!']
  let name ← takeWhile isNameChar
  let c ← peek 0
  if c != some '!' then fail (.expectedExclamation c)
  advance 1
  return '!' :: name ++ ['!']

/-- Reads the byte of one escape, after its percent sign. -/
def uriByte : Scan UInt8 := do
  let c ← peek 0
  if !c.any isHexDigit then fail (.expectedUriEscape c)
  let d ← peek 1
  if !d.any isHexDigit then fail (.expectedUriEscape d)
  advance 2
  return UInt8.ofNat (numberOf 16 (c.toList ++ d.toList))

/-- Reads a run of escapes, whose bytes together must be UTF-8. -/
def uriEscapes : Scan (List Char) := do
  let start ← here
  let bytes ← iterate
    (fun bytes => do
      if ← nextIs '%' then
        advance 1
        return .yield (bytes ++ [← uriByte])
      else return .done bytes)
    []
  match Utf8.decode bytes with
  | .ok s => return s
  | .error fault => raise (.problem (.uriBytes fault) start)

/-- Reads the characters of a tag, with their escapes resolved. -/
def tagUri : Scan (List Char) := do
  let parts ← iterate
    (fun parts => do
      if ← nextIs '%' then
        return .yield (parts ++ [← uriEscapes])
      else
        let run ← takeWhile fun c => isUriChar c && c != '%'
        if run.isEmpty then return .done parts else return .yield (parts ++ [run]))
    []
  if parts.isEmpty then fail (.expectedUri (← peek 0))
  return parts.flatten

/-- Does the text after a tag's exclamation mark begin with a handle: is there a second mark before
the next space or line break? -/
def usesHandle (s : List Char) : Bool :=
  ((s.takeWhile fun c => !isSpaceOrBreak c).contains '!')

/-- Reads a tag. -/
def tagLexeme : Scan Lexeme := do
  let start ← here
  let c ← peek 1
  let (handle, suffix) ←
    if c == some '<' then
      advance 2
      let suffix ← tagUri
      let c ← peek 0
      if c != some '>' then fail (.expectedClosingAngle c)
      advance 1
      Pure.pure (none, suffix)
    else if c.all isBlankOrBreak then
      advance 1
      Pure.pure (none, ['!'])
    else if usesHandle ((← ahead).drop 1) then
      let handle ← tagHandle
      let suffix ← tagUri
      Pure.pure (some handle, suffix)
    else
      advance 1
      let suffix ← tagUri
      Pure.pure (some ['!'], suffix)
  let c ← peek 0
  if !c.all isSpaceOrBreak then fail (.expectedSpace c)
  return ⟨.tag (handle.map String.ofList) (String.ofList suffix), start, ← here⟩

end YamlNavigator.Yaml.Scan
