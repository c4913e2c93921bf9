import YamlNavigator.Text.Integer
import YamlNavigator.Text.Utf8
import YamlNavigator.Yaml.Lexeme

/-!
What can be wrong with a YAML text.

* `Problem`: the causes for which a text is refused at some place;
* `Problem.message`: the wording of a cause;
* `Failure`: how reading a text fails: a refused character, a problem at a place, or an escape or a
  version number whose value cannot be represented;
* `Failure.message`: the wording of a failure, without its place.
-/

namespace YamlNavigator.Yaml

open Text

/-- The causes for which a text is refused. The character found is `none` at the end of the text. -/
inductive Problem where
  | cannotStart (found : Char)
  | sequenceEntryNotAllowed
  | mappingKeyNotAllowed
  | mappingValueNotAllowed
  | missingColon
  | expectedNameCharacter (found : Option Char)
  | expectedDigit (found : Option Char)
  | expectedDigitOrDot (found : Option Char)
  | expectedDigitOrSpace (found : Option Char)
  | expectedSpace (found : Option Char)
  | expectedExclamation (found : Option Char)
  | expectedClosingAngle (found : Option Char)
  | expectedUri (found : Option Char)
  | expectedUriEscape (found : Option Char)
  | uriBytes (fault : Utf8.Fault)
  | expectedCommentOrBreak (found : Option Char)
  | zeroIndentation
  | expectedBlockHeader (found : Option Char)
  | expectedHexEscape (count : Nat) (found : Option Char)
  | unknownEscape (found : Option Char)
  | endInQuoted
  | separatorInQuoted
  | expectedDocumentStart (found : Content)
  | expectedNode (found : Content)
  | expectedBlockEnd (found : Content)
  | expectedSequenceSeparator (found : Content)
  | expectedMappingSeparator (found : Content)
  | duplicateVersion
  | incompatibleVersion
  | duplicateHandle (handle : String)
  | undefinedHandle (handle : String)
  deriving DecidableEq, Repr

/-- The wording of a cause. -/
def Problem.message : Problem → String
  | .cannotStart c => s!"found character {quotedChar (some c)} that cannot start any token"
  | .sequenceEntryNotAllowed => "sequence entries are not allowed here"
  | .mappingKeyNotAllowed => "mapping keys are not allowed here"
  | .mappingValueNotAllowed => "mapping values are not allowed here"
  | .missingColon => "could not find expected ':'"
  | .expectedNameCharacter c =>
      s!"expected alphabetic or numeric character, but found {quotedChar c}"
  | .expectedDigit c => s!"expected a digit, but found {quotedChar c}"
  | .expectedDigitOrDot c => s!"expected a digit or '.', but found {quotedChar c}"
  | .expectedDigitOrSpace c => s!"expected a digit or ' ', but found {quotedChar c}"
  | .expectedSpace c => s!"expected ' ', but found {quotedChar c}"
  | .expectedExclamation c => s!"expected '!', but found {quotedChar c}"
  | .expectedClosingAngle c => s!"expected '>', but found {quotedChar c}"
  | .expectedUri c => s!"expected URI, but found {quotedChar c}"
  | .expectedUriEscape c =>
      s!"expected URI escape sequence of 2 hexadecimal numbers, but found {quotedChar c}"
  | .uriBytes fault => fault.message
  | .expectedCommentOrBreak c => s!"expected a comment or a line break, but found {quotedChar c}"
  | .zeroIndentation => "expected indentation indicator in the range 1-9, but found 0"
  | .expectedBlockHeader c =>
      s!"expected chomping or indentation indicators, but found {quotedChar c}"
  | .expectedHexEscape n c =>
      s!"expected escape sequence of {n} hexadecimal numbers, but found {quotedChar c}"
  | .unknownEscape c => s!"found unknown escape character {quotedChar c}"
  | .endInQuoted => "found unexpected end of stream"
  | .separatorInQuoted => "found unexpected document separator"
  | .expectedDocumentStart x => s!"expected '<document start>', but found {quoted x.label}"
  | .expectedNode x => s!"expected the node content, but found {quoted x.label}"
  | .expectedBlockEnd x => s!"expected <block end>, but found {quoted x.label}"
  | .expectedSequenceSeparator x => s!"expected ',' or ']', but got {quoted x.label}"
  | .expectedMappingSeparator x => s!"expected ',' or '\x7d', but got {quoted x.label}"
  | .duplicateVersion => "found duplicate YAML directive"
  | .incompatibleVersion => "found incompatible YAML document (version 1.* is required)"
  | .duplicateHandle h => s!"duplicate tag handle {quoted h}"
  | .undefinedHandle h => s!"found undefined tag handle {quoted h}"

/-- How reading a text fails. -/
inductive Failure where
  /-- A character that no YAML text may hold, at an offset. -/
  | unacceptable (c : Char) (offset : Nat)
  /-- A problem at a place. -/
  | problem (cause : Problem) (mark : Mark)
  /-- An escape whose number does not fit into 31 bits. -/
  | escapeTooLarge
  /-- An escape whose number is no code point. -/
  | escapeNoCodePoint
  /-- A version number with more digits than are accepted. -/
  | versionTooLong (count : Nat)
  deriving DecidableEq, Repr

/-- The wording of a failure, without its place. -/
def Failure.message : Failure → String
  | .unacceptable c offset =>
      s!"unacceptable character #x{String.ofList (unicodeNumber c.toNat)}: " ++
        s!"special characters are not allowed\n  in \"<unicode string>\", position {offset}"
  | .problem cause _ => cause.message
  | .escapeTooLarge => "Python int too large to convert to C int"
  | .escapeNoCodePoint => "chr() arg not in range(0x110000)"
  | .versionTooLong count => (Integer.Fault.tooManyDigits count).message
where
  /-- A code point in base sixteen, with at least four digits. -/
  unicodeNumber (n : Nat) : List Char := hexDigits (max 4 (Nat.toDigits 16 n).length) n

end YamlNavigator.Yaml
