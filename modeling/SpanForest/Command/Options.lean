import SpanForest.Command.Word

/-!
What the words of a command line ask for. Words that are ambiguous are refused first, then words are
taken in order, and words that nothing takes are refused last. Short options may be joined in one word,
the last one with its value; a word is read to its end before any option in it takes effect. Two dashes
attached as a value name neither a format nor a file.
-/

namespace SpanForest.Command

inductive Target where
  | standardOutput
  | file (path : String)
  | nowhere
  deriving DecidableEq

def Target.ofValue (value : String) : Target :=
  if value = Word.separatorText then .nowhere else .file value

def Format.ofValue? (value : String) : Option Format :=
  if value = Word.separatorText then some .tree else choices.lookup value

structure Options where
  input : Option String := none
  output : Target := .standardOutput
  format : Format := .tree
  noMerge : Bool := false
  verbose : Bool := false

inductive Stop where
  | usage (error : UsageError)
  | showVersion
  | showHelp

structure Taken where
  options : Options := {}
  extras : List String := []

namespace Taken

def addExtra (t : Taken) (text : String) : Taken := { t with extras := t.extras ++ [text] }

def apply (t : Taken) : Switch → Except Stop Taken
  | .help => .error .showHelp
  | .version => .error .showVersion
  | .noMerge => .ok { t with options := { t.options with noMerge := true } }
  | .verbose => .ok { t with options := { t.options with verbose := true } }
  | switch => .error (.usage (.noValue switch))

def applyValue (t : Taken) (switch : Switch) (value : String) : Except Stop Taken :=
  match switch with
  | .format =>
      match Format.ofValue? value with
      | some format => .ok { t with options := { t.options with format } }
      | none => .error (.usage (.noSuchChoice .format value))
  | .output => .ok { t with options := { t.options with output := Target.ofValue value } }
  | switch => .error (.usage (.unwantedValue switch value))

/-- Short options joined in one word: those without a value, and how the word ends. -/
inductive Ending where
  | complete
  | value (switch : Switch) (text : String)
  | wantsValue (switch : Switch)

structure Joined where
  flags : List Switch
  ending : Ending

def Joined.cons (flag : Switch) (j : Joined) : Joined := ⟨flag :: j.flags, j.ending⟩

/-- Reads what follows a short option in its word: the value if it takes one, else further short
options, each by its letter. -/
def joinFrom (switch : Switch) : List Char → Except UsageError Joined
  | [] => .ok (if switch.takesValue then ⟨[], .wantsValue switch⟩ else ⟨[switch], .complete⟩)
  | c :: rest =>
      if switch.takesValue then .ok ⟨[], .value switch (String.ofList (c :: rest))⟩
      else
        match Switch.ofSpelling? (String.ofList ['-', c]) with
        | none => .error (.unwantedValue switch (String.ofList (c :: rest)))
        | some next => (joinFrom next rest).map (Joined.cons switch)

/-- What the word of an option holds. An attached value may be empty, which is not the same as none. -/
def join (switch : Switch) (isLong : Bool) : Option (List Char) → Except UsageError Joined
  | none => joinFrom switch []
  | some value =>
      if switch.takesValue then .ok ⟨[], .value switch (String.ofList value)⟩
      else if isLong || value.isEmpty then .error (.unwantedValue switch (String.ofList value))
      else joinFrom switch value

def applyAll (t : Taken) : List Switch → Except Stop Taken
  | [] => .ok t
  | switch :: rest =>
      match t.apply switch with
      | .error stop => .error stop
      | .ok t => t.applyAll rest

def takePlain (t : Taken) (text : String) : Taken :=
  if t.options.input.isNone then { t with options := { t.options with input := some text } }
  else t.addExtra text

/-- Takes the words after the last option. A separator next to the input goes with it. -/
def takeLast (t : Taken) (words : List Word) : Taken :=
  let withExtras (t : Taken) (rest : List Word) : Taken :=
    { t with extras := t.extras ++ rest.map Word.text }
  if t.options.input.isSome then withExtras t words
  else
    match words with
    | .separator :: .plain text :: rest => withExtras (t.takePlain text) rest
    | .plain text :: .separator :: rest => withExtras (t.takePlain text) rest
    | .plain text :: rest => withExtras (t.takePlain text) rest
    | rest => withExtras t rest

def takeAll (t : Taken) : List Word → Except Stop Taken
  | [] => .ok t
  | word :: rest =>
      if (word :: rest).any Word.isOption then
        match word with
        | .plain text => takeAll (t.takePlain text) rest
        | .separator => takeAll (t.addExtra word.text) rest
        | .unknown text => takeAll (t.addExtra text) rest
        | .option _ switch isLong attached =>
            match join switch isLong attached with
            | .error e => .error (.usage e)
            | .ok joined =>
                match joined.ending, rest with
                | .wantsValue switch, .plain value :: rest =>
                    match (t.applyAll joined.flags).bind (·.applyValue switch value) with
                    | .error stop => .error stop
                    | .ok t => takeAll t rest
                | .wantsValue switch, _ => .error (.usage (.noValue switch))
                | .value switch value, rest =>
                    match (t.applyAll joined.flags).bind (·.applyValue switch value) with
                    | .error stop => .error stop
                    | .ok t => takeAll t rest
                | .complete, rest =>
                    match t.applyAll joined.flags with
                    | .error stop => .error stop
                    | .ok t => takeAll t rest
      else .ok (t.takeLast (word :: rest))

end Taken

structure Request where
  input : String
  output : Target
  format : Format
  noMerge : Bool
  verbose : Bool

def Options.read (args : List String) : Except Stop Request := do
  let words ← (Word.classifyAll args).mapError Stop.usage
  let taken ← Taken.takeAll {} words
  match taken.options.input with
  | none => .error (.usage .noInput)
  | some input =>
      if taken.extras.isEmpty then
        pure ⟨input, taken.options.output, taken.options.format, taken.options.noMerge,
          taken.options.verbose⟩
      else .error (.usage (.unrecognized taken.extras))

end SpanForest.Command
