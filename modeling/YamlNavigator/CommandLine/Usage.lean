import YamlNavigator.CommandLine.Request

/-!
What is printed instead of a document.

* `usage`, `help`: the description of the command line in short and at length;
* `Request.Stop.code`, `Request.Stop.out`, `Request.Stop.err`: the exit code and the text of a
  command line that asks for no document.
-/

namespace YamlNavigator

/-- The description of the command line in short. -/
def usage : String :=
  "usage: yn [-h] [--query QUERY] [--line-numbers] [--no-color] [--output]\n" ++
  "          [--suggest] [--match MATCH] [--height HEIGHT] [--verbose]\n" ++
  "          [file]\n"

/-- The description of the command line at length. -/
def help : String :=
  usage ++
  "\nYAML navigator: highlight the nodes at a dotted path\n" ++
  "\npositional arguments:\n" ++
  "  file                  Input file (reads from stdin if not provided)\n" ++
  "\noptions:\n" ++
  "  -h, --help            show this help message and exit\n" ++
  "  --query QUERY, -q QUERY\n" ++
  "                        Dotted path to highlight (e.g.\n" ++
  "                        spec.containers.0.image)\n" ++
  "  --line-numbers, -n    Prefix lines with line numbers\n" ++
  "  --no-color            Disable colors and highlighting styles\n" ++
  "  --output, -o          Print the matched nodes instead of the whole document\n" ++
  "  --suggest, -s         List every query path in the document (filtered by\n" ++
  "                        --query as a prefix)\n" ++
  "  --match MATCH, -m MATCH\n" ++
  "                        Start output around the Nth match (1-based)\n" ++
  "  --height HEIGHT       Viewport height used to place --match mid-screen\n" ++
  "                        (default: 24)\n" ++
  "  --verbose, -v         Log debug information to stderr\n"

namespace Request.Stop

/-- The exit code. -/
def code : Stop → Nat
  | help => 0
  | refused _ => 2

/-- What is printed. -/
def out : Stop → String
  | help => YamlNavigator.help
  | refused _ => ""

/-- What is printed as an error. -/
def err : Stop → String
  | help => ""
  | refused fault => usage ++ s!"yn: error: {fault.message}\n"

end Request.Stop

end YamlNavigator
