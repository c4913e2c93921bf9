import YamlNavigator.Document.Token
import YamlNavigator.Text.Lines
import YamlNavigator.Yaml.Lexeme
import YamlNavigator.Yaml.Resolve

/-!
Cutting a text into tokens that cover it without gaps.

White space before a lexical unit belongs to the unit's token. Comments are tokens of their own, and
so are a byte order mark at the beginning and the white space at the end. Units without text become
tokens without text, so that the structure they mark can be seen from their neighbours.

* `contentColumn`: where the content of a line starts, behind spaces and block indicators;
* `LineTable`, `LineTable.position`: the position of an offset;
* `TokenKind.ofLexeme`: the kind of the token of a lexical unit;
* `splitComment`: the comment at the front of the text between two units;
* `Tile`, `tiles`: the tokens before they are numbered, each with the unit it was made from;
* `Tiles.units`, `Stream.ofTiles`: the numbered tokens.
-/

namespace YamlNavigator

open Text Yaml

/-! ### Positions -/

/-- Where the content of a line starts: behind spaces and behind hyphens and question marks that a
blank or the end of the line follows. -/
def contentColumn (line : List Char) : Nat :=
  let spaces := line.takeWhile (· = ' ')
  match h : line.dropWhile (· = ' ') with
  | [] => spaces.length
  | c :: after =>
      let blanks := after.takeWhile isMarginBlank
      if (c = '-' || c = '?') && (after.isEmpty || !blanks.isEmpty) then
        have : (after.dropWhile isMarginBlank).length < line.length := by
          have h₁ := (List.dropWhile_suffix isMarginBlank (l := after)).length_le
          have h₂ :=
            (List.dropWhile_suffix (fun x : Char => decide (x = ' ')) (l := line)).length_le
          rw [h] at h₂
          simp at h₂
          omega
        spaces.length + 1 + blanks.length + contentColumn (after.dropWhile isMarginBlank)
      else spaces.length
  termination_by line.length
where
  /-- Blanks that may stand behind a block indicator. -/
  isMarginBlank (c : Char) : Bool := c = ' ' || c = '\t'

/-- A line: the offset of its first character and the column where its content starts. -/
structure LineEntry where
  start : Nat
  indent : Nat
  deriving DecidableEq, Repr, Inhabited

/-- The lines of a text. -/
abbrev LineTable := List LineEntry

namespace LineTable

/-- The entries of lines that follow one another, the first beginning at an offset. -/
def ofLines (start : Nat) : List (List Char) → LineTable
  | [] => []
  | l :: ls => ⟨start, contentColumn l⟩ :: ofLines (start + l.length + 1) ls

/-- The lines of a text. -/
def ofText (s : List Char) : LineTable := ofLines 0 (lines s)

/-- The position of an offset: in the last line that starts at the offset or before it. -/
def position (table : LineTable) (offset : Nat) : Position :=
  let upTo := table.takeWhile (·.start ≤ offset)
  let entry := upTo.getLast?.getD ⟨0, 0⟩
  ⟨upTo.length, offset - entry.start + 1, entry.indent⟩

end LineTable

/-! ### Kinds -/

/-- The kind of a plain scalar. -/
def TokenKind.ofPlain (s : String) : TokenKind :=
  match PlainType.ofText s with
  | .bool => .bool
  | .integer => .integer
  | .float => .float
  | .null => .null
  | .text => .string

/-- The kind of the token of a lexical unit. A key is a visible indicator only if it is written with
a question mark. -/
def TokenKind.ofLexeme (l : Lexeme) : TokenKind :=
  match l.content with
  | .scalar _ .singleQuoted => .singleQuotedString
  | .scalar _ .doubleQuoted => .doubleQuotedString
  | .scalar _ .literal | .scalar _ .folded => .string
  | .scalar s .plain => .ofPlain s
  | .anchor _ => .anchor
  | .reference _ => .reference
  | .tag _ _ => .tag
  | .directive _ => .directive
  | .value => .mappingValueIndicator
  | .blockEntry => .blockStructureIndicator
  | .key => if l.isEmpty then .other else .blockStructureIndicator
  | .flowSequenceStart | .flowSequenceEnd | .flowMappingStart | .flowMappingEnd | .flowEntry =>
      .flowIndicator
  | .documentStart | .documentEnd => .documentIndicator
  | .streamStart | .streamEnd | .blockSequenceStart | .blockMappingStart | .blockEnd => .other

/-! ### Tiles -/

/-- The text between two units, cut behind the comments in it: behind the last line that holds a
number sign. Without one there is no comment. -/
def splitComment (gap : List Char) : List Char × List Char :=
  if gap.contains '#' then
    let afterSign := (gap.reverse.takeWhile (· != '#')).reverse
    let blank := afterSign.dropWhile (· != '\n')
    (gap.take (gap.length - blank.length), blank)
  else ([], gap)

/-- A token that is not yet numbered: its kind, its text, the offset of its significant text, and
the lexical unit that it was made from. -/
structure Tile where
  kind : TokenKind
  origin : List Char
  offset : Nat
  lexeme : Option Lexeme
  deriving Repr

/-- The tile of the comments at the front of the text between two units, if there are any; its
significant text starts at the first number sign. -/
def commentTiles (offset : Nat) (comment : List Char) : List Tile :=
  if comment.isEmpty then []
  else [⟨.comment, comment, offset + (comment.takeWhile (· != '#')).length, none⟩]

/-- The tile of the white space at the end of a text, if there is any. -/
def tailTiles (offset : Nat) (tail : List Char) : List Tile :=
  if tail.isEmpty then [] else [⟨.other, tail, offset, none⟩]

/-- The tiles of the lexical units of a text of which `rest` is left, from the offset `at` on. -/
def tilesFrom (offset : Nat) (rest : List Char) : List Lexeme → List Tile
  | [] => []
  | l :: ls =>
      let kind := TokenKind.ofLexeme l
      if l.content = .streamEnd then
        let (comment, tail) := splitComment rest
        let stop := offset + rest.length
        commentTiles offset comment ++ tailTiles (offset + comment.length) tail ++
          ⟨kind, [], stop, some l⟩ :: tilesFrom stop [] ls
      else if l.isEmpty then ⟨kind, [], l.start.index, some l⟩ :: tilesFrom offset rest ls
      else
        let (comment, blank) := splitComment (rest.take (l.start.index - offset))
        let text := (rest.drop (l.start.index - offset)).take (l.stop.index - l.start.index)
        commentTiles offset comment ++
          ⟨kind, blank ++ text, l.start.index, some l⟩ ::
            tilesFrom l.stop.index (rest.drop (l.stop.index - offset)) ls

/-- The tiles of a text. A byte order mark at the beginning is a tile of its own. -/
def tiles (s : List Char) (ls : List Lexeme) : List Tile :=
  match s with
  | '\ufeff' :: rest => ⟨.other, ['\ufeff'], 0, none⟩ :: tilesFrom 1 rest ls
  | _ => tilesFrom 0 s ls

/-- The token of a tile at a place of the stream. -/
def Tile.token (table : LineTable) (t : Tile) (place : Nat) : Token :=
  ⟨t.kind, String.ofList t.origin, table.position t.offset, place⟩

/-- The tokens of tiles, numbered in their order. -/
def tokensOfTiles (table : LineTable) (ts : List Tile) : List Token :=
  ts.zipIdx.map fun p => p.1.token table p.2

/-- The lexical units that tiles were made from, each with its token. -/
def unitsOfTiles (table : LineTable) (ts : List Tile) : List (Lexeme × Token) :=
  ts.zipIdx.filterMap fun p => p.1.lexeme.map fun l => (l, p.1.token table p.2)

/-- The stream of tokens made from tiles. -/
def Stream.ofTiles (table : LineTable) (ts : List Tile) : Stream :=
  ⟨(tokensOfTiles table ts).toArray⟩

/-- The stream of tokens made from tiles is indexed. -/
theorem Stream.isIndexed_ofTiles (table : LineTable) (ts : List Tile) :
    (Stream.ofTiles table ts).IsIndexed := by
  intro i t h
  simp only [Stream.ofTiles, tokensOfTiles, List.getElem?_toArray, List.getElem?_map,
    List.getElem?_zipIdx, Option.map_map, Option.map_eq_some_iff] at h
  obtain ⟨tile, -, rfl⟩ := h
  simp [Tile.token]

end YamlNavigator
