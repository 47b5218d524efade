import SpanForest.Text.Quoted

/-!
The switches of the command line, their spellings, and what can be wrong with the words of a command
line. Messages name a switch by all of its spellings.
-/

namespace SpanForest.Command

inductive Switch where
  | help | version | output | format | noMerge | verbose
  deriving DecidableEq

namespace Switch

def spellings : List (String × Switch) :=
  [("-h", .help), ("--help", .help), ("--version", .version), ("-o", .output),
    ("--output", .output), ("--format", .format), ("--no-merge", .noMerge), ("-v", .verbose),
    ("--verbose", .verbose)]

def ofSpelling? (s : String) : Option Switch := spellings.lookup s

def takesValue : Switch → Bool
  | .output => true
  | .format => true
  | _ => false

def label (s : Switch) : String :=
  "/".intercalate ((spellings.filter fun entry => entry.2 = s).map Prod.fst)

end Switch

inductive Format where
  | tree | json
  deriving DecidableEq

def Format.choices : List (String × Format) := [("tree", .tree), ("json", .json)]

inductive UsageError where
  | ambiguous (word : String) (candidates : List String)
  | noValue (switch : Switch)
  | unwantedValue (switch : Switch) (value : String)
  | noSuchChoice (switch : Switch) (value : String)
  | noInput
  | unrecognized (words : List String)

namespace UsageError

def ofSwitch (switch : Switch) (text : String) : String :=
  String.join ["argument ", switch.label, ": ", text]

def message : UsageError → String
  | .ambiguous word candidates =>
      String.join ["ambiguous option: ", word, " could match ", ", ".intercalate candidates]
  | .noValue switch => ofSwitch switch "expected one argument"
  | .unwantedValue switch value =>
      ofSwitch switch (String.join ["ignored explicit argument ", Text.quote value])
  | .noSuchChoice switch value =>
      ofSwitch switch
        (String.join
          ["invalid choice: ", Text.quote value, " (choose from ",
            ", ".intercalate (Format.choices.map fun c => Text.quote c.1), ")"])
  | .noInput => "the following arguments are required: input"
  | .unrecognized words => String.join ["unrecognized arguments: ", " ".intercalate words]

end UsageError

end SpanForest.Command
