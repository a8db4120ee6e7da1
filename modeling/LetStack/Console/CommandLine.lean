import LetStack.Console.Lines
import LetStack.Text.Numeral

/-! The command line: which words are options, and what they ask for. -/

namespace LetStack

inductive Flag where
  | help
  | verbose
  | prompt
  deriving DecidableEq

structure Options where
  verbose : Bool
  prompt : String
  deriving DecidableEq

inductive UsageError where
  | unrecognized (words : List String)
  | ambiguous (word : String) (candidates : List String)
  | expectedArgument (flag : Flag)
  | ignoredArgument (flag : Flag) (argument : String)
  deriving DecidableEq

inductive Request where
  | start (options : Options)
  | help
  | refuse (error : UsageError)
  deriving DecidableEq

namespace CommandLine

def spellings : List (String × Flag) :=
  [("-h", .help), ("--help", .help), ("-v", .verbose), ("--verbose", .verbose),
    ("--prompt", .prompt)]

def title : Flag → String
  | .help => "-h/--help"
  | .verbose => "-v/--verbose"
  | .prompt => "--prompt"

def usage : String := "usage: exprvm [-h] [-v] [--prompt PROMPT]\n"

def helpText : String :=
  usage ++ "\nexprvm interactive shell\n\noptions:\n"
    ++ "  -h, --help       show this help message and exit\n"
    ++ "  -v, --verbose    log every executed instruction\n"
    ++ "  --prompt PROMPT  input prompt (default: " ++ quoted Console.defaultPrompt ++ ")\n"

def message : UsageError → String
  | .unrecognized words => "unrecognized arguments: " ++ " ".intercalate words
  | .ambiguous word candidates =>
    "ambiguous option: " ++ word ++ " could match " ++ ", ".intercalate candidates
  | .expectedArgument flag => "argument " ++ title flag ++ ": expected one argument"
  | .ignoredArgument flag argument =>
    "argument " ++ title flag ++ ": ignored explicit argument " ++ quoted argument

def errorText (error : UsageError) : String :=
  usage ++ "exprvm: error: " ++ message error ++ "\n"

inductive Word where
  | plain
  | separator
  | unknown
  | option (spelling : String) (flag : Flag) (attached : Option String)
  deriving DecidableEq

def withoutLastBreak (chars : List Char) : List Char :=
  if chars.getLast? = some '\n' then chars.dropLast else chars

/-- A minus sign and digits of any script, with a point among them at most once and not at the
end. A line break at the very end does not count. -/
def isNegativeNumber (word : String) : Bool :=
  match withoutLastBreak word.toList with
  | '-' :: size =>
    let whole := size.takeWhile isNumeral
    match size.dropWhile isNumeral with
    | [] => !whole.isEmpty
    | '.' :: fraction => !fraction.isEmpty && fraction.all isNumeral
    | _ => false
  | _ => false

def attachedOf? : List Char → Option String
  | [] => none
  | _ :: text => some (String.ofList text)

def beforeEquals (word : String) : List Char := word.toList.takeWhile (· ≠ '=')

def fromEquals (word : String) : List Char := word.toList.dropWhile (· ≠ '=')

def isOption (spelling : List Char) (entry : String × Flag) : Bool := entry.1.toList = spelling

/-- The options that a word may stand for: any that it abbreviates, or after a single dash the
one whose letter it begins with. -/
def candidates (word : String) : List Word :=
  match word.toList with
  | '-' :: '-' :: _ =>
    (spellings.filter fun entry => (beforeEquals word).isPrefixOf entry.1.toList).map fun entry =>
      .option entry.1 entry.2 (attachedOf? (fromEquals word))
  | '-' :: letter :: behind =>
    (spellings.filter (isOption ['-', letter])).map fun entry =>
      .option entry.1 entry.2 (some (String.ofList behind))
  | _ => []

def fullOption? (word : String) : Option Word :=
  match spellings.find? (isOption word.toList) with
  | some entry => some (.option entry.1 entry.2 none)
  | none =>
    (spellings.find? (isOption (beforeEquals word))).map fun entry =>
      .option entry.1 entry.2 (attachedOf? (fromEquals word))

def Word.spelling : Word → String
  | .option spelling _ _ => spelling
  | _ => ""

/-- A dash alone, a negative number and a word with a space in it are plain. -/
def classify (word : String) : Except UsageError Word :=
  if word.toList.head? ≠ some '-' ∨ word = "-" then .ok .plain
  else
    match fullOption? word, candidates word with
    | some found, _ => .ok found
    | none, [found] => .ok found
    | none, [] =>
      if isNegativeNumber word ∨ ' ' ∈ word.toList then .ok .plain else .ok .unknown
    | none, several => .error (.ambiguous word (several.map Word.spelling))

def classifyAll : List String → Except UsageError (List (String × Word))
  | [] => .ok []
  | word :: rest =>
    if word = "--" then .ok ((word, .separator) :: rest.map fun later => (later, .plain))
    else do
      let kind ← classify word
      let more ← classifyAll rest
      .ok ((word, kind) :: more)

def letterFlag? (letter : Char) : Option Flag :=
  (spellings.find? (isOption ['-', letter])).map Prod.snd

/-- Flags whose letters stand together in one word. None of them takes an argument, so the first
letter that is no flag is complained of, with all that follows it. -/
def cluster (flag : Flag) : List Char → Except UsageError (List Flag)
  | [] => .ok [flag]
  | letter :: rest =>
    match letterFlag? letter with
    | none => .error (.ignoredArgument flag (String.ofList (letter :: rest)))
    | some next => (cluster next rest).map (flag :: ·)

/-- After a single dash the attached text is more letters, with or without an equals sign before
them. -/
def flagsOf (spelling : String) (flag : Flag) : Option String → Except UsageError (List Flag)
  | none => .ok [flag]
  | some attached =>
    if "--".isPrefixOf spelling ∨ attached = "" then .error (.ignoredArgument flag attached)
    else cluster flag attached.toList

def applyFlags (options : Options) : List Flag → Option Options
  | [] => some options
  | .help :: _ => none
  | .verbose :: rest => applyFlags { options with verbose := true } rest
  | .prompt :: rest => applyFlags options rest

/-- Two dashes attached to the option count as a separator, which leaves an empty list of words to
be shown. -/
def attachedPrompt (attached : String) : String := if attached = "--" then "[]" else attached

/-- Whatever is no option is complained of at the end. -/
def follow : List (String × Word) → Options → List String → Request
  | [], options, [] => .start options
  | [], _, extras => .refuse (.unrecognized extras)
  | (_, .option _ .prompt (some attached)) :: rest, options, extras =>
    follow rest { options with prompt := attachedPrompt attached } extras
  | (_, .option _ .prompt none) :: (word, .plain) :: rest, options, extras =>
    follow rest { options with prompt := word } extras
  | (_, .option _ .prompt none) :: _, _, _ => .refuse (.expectedArgument .prompt)
  | (_, .option spelling flag attached) :: rest, options, extras =>
    match flagsOf spelling flag attached with
    | .error error => .refuse error
    | .ok flags =>
      match applyFlags options flags with
      | none => .help
      | some options => follow rest options extras
  | (word, _) :: rest, options, extras => follow rest options (extras ++ [word])

def request (words : List String) : Request :=
  match classifyAll words with
  | .error error => .refuse error
  | .ok classified => follow classified ⟨false, Console.defaultPrompt⟩ []

structure Completion where
  exitCode : Nat
  output : String
  errors : String
  deriving DecidableEq

def logText (verbose : Bool) (log : List LogEntry) : String :=
  if verbose then String.join (log.map fun entry => entry.line ++ "\n") else ""

def complete (depth : Nat) (words : List String) (input : String) : Option Completion :=
  match request words with
  | .refuse error => some ⟨2, "", errorText error⟩
  | .help => some ⟨0, helpText, ""⟩
  | .start options =>
    (Console.converse depth options.prompt (Console.inputLines input) .empty).map
      fun (output, log) =>
        ⟨0, String.join (Console.introduction :: output), logText options.verbose log⟩

end CommandLine

end LetStack
