import SpanForest.Command.Switch

/-!
What the command line says of itself: its version, how it is used, and the help on its arguments, as
they are laid out on lines of 80 columns.
-/

namespace SpanForest.Command

def programName : String := "trace-tree"

def versionNumber : String := "0.1.0"

def versionLine : String := String.join [programName, " ", versionNumber, "\n"]

def summaryLines : List String :=
  ["usage: trace-tree [-h] [--version] [-o OUTPUT] [--format \x7btree,json\x7d]",
    "                  [--no-merge] [-v]",
    "                  input"]

def helpLines : List String :=
  ["",
    "Merge Zipkin spans and print the reconstructed trace trees",
    "",
    "positional arguments:",
    "  input                 Span file path (.json or .json.gz, one JSON array per",
    "                        line), or - for stdin",
    "",
    "options:",
    "  -h, --help            show this help message and exit",
    "  --version             show program's version number and exit",
    "  -o OUTPUT, --output OUTPUT",
    "                        Output file path (default: stdout)",
    "  --format \x7btree,json\x7d  tree: indented span tree per trace; json: merged spans",
    "                        (default: tree)",
    "  --no-merge            Don't merge span parts before building trees",
    "  -v, --verbose         Log topology repairs to stderr"]

def endLines (lines : List String) : String := String.join (lines.map (· ++ "\n"))

def helpText : String := endLines (summaryLines ++ helpLines)

def usageText (error : UsageError) : String :=
  String.join [endLines summaryLines, programName, ": error: ", error.message, "\n"]

end SpanForest.Command
