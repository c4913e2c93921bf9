import YamlNavigator.Document.Query

/-!
What a token means to a reader, and whether it belongs to a match.

* `Category`, `Category.all`: the meanings that have a style;
* `Stream.categorize`: the category of a token, found from its kind and its neighbours;
* `Highlight`, `Stream.highlight`: whether a token is highlighted, and for which match.
-/

namespace YamlNavigator

/-- The meanings of tokens that have a style. -/
inductive Category where
  | mapKey
  | anchor
  | reference
  | bool
  | string
  | number
  | null
  | tag
  | indicator
  deriving DecidableEq, Repr, Inhabited

namespace Category

/-- All categories, in the order in which their styles are listed. -/
def all : List Category := [mapKey, anchor, reference, bool, string, number, null, tag, indicator]

/-- Every category is listed. -/
theorem mem_all (c : Category) : c ∈ all := by
  cases c <;> decide

/-- The name of a category. -/
def name : Category → String
  | mapKey => "map_key"
  | anchor => "anchor"
  | reference => "alias"
  | bool => "bool"
  | string => "string"
  | number => "number"
  | null => "null"
  | tag => "tag"
  | indicator => "indicator"

/-- The category of a kind by itself. -/
def ofKind : TokenKind → Option Category
  | .bool => some bool
  | .integer | .float => some number
  | .null => some null
  | .anchor => some anchor
  | .reference => some reference
  | .tag => some tag
  | .string | .singleQuotedString | .doubleQuotedString => some string
  | _ => none

end Category

namespace Stream

/-- The category of a token. Indicators come first; then the content behind an anchor or an alias;
then the content in front of a colon; then the kind of the token decides. -/
def categorize (s : Stream) (t : Token) : Except NoSuchToken (Option Category) := do
  if t.kind.isIndicator then return some .indicator
  if t.kind = .comment then return none
  match ← s.previousKind t with
  | some .anchor => return some .anchor
  | some .reference => return some .reference
  | _ =>
      if (← s.nextKind t) = some .mappingValueIndicator then return some .mapKey
      return Category.ofKind t.kind

end Stream

/-- Whether a token is highlighted, and the match that it belongs to. -/
structure Highlight where
  isOn : Bool
  owner : Option Found
  deriving Repr, Inhabited

namespace Highlight

/-- A token that is not highlighted. -/
def off : Highlight := ⟨false, none⟩

end Highlight

/-- Whether a token is highlighted. Colons, hyphens and question marks belong to no node; they
follow the token that they introduce. -/
def Stream.highlight (s : Stream) (m : Matches) (t : Token) : Except NoSuchToken Highlight := do
  if m.highlights t then return ⟨true, m.owner? t⟩
  if t.kind.isBlockStructure then
    match ← s.next t with
    | some u => if m.highlights u then return ⟨true, m.owner? u⟩ else return .off
    | none => return .off
  return .off

end YamlNavigator
