import Typist.CommandLine.Item
import Typist.Double.Read
import Typist.Listing

/-!
# The command line

What the program is asked to do: to tell its version or its usage, or to play or list a document with
certain settings.

The items are taken in order. The first one that asks for the version or the usage, or that is wrong,
decides; an option is wrong if its value means nothing to it or if it was given before, except that
verbosity adds up. There is one path, and it has to be there in the end.
-/

namespace Typist

namespace CommandLine

/-- What to do with a document. -/
structure Request where
  /-- where the document is -/
  path : Option Text := none
  /-- a file of settings -/
  config : Option Text := none
  /-- what to list; if nothing, the document is played -/
  format : Option Listing.Format := none
  /-- the only slide to take, counted from one -/
  slide : Option Nat := none
  typingSpeed : Option Nat := none
  deletingSpeed : Option Nat := none
  afterDeletePause : Option Nat := none
  seed : Option Nat := none
  jitter : Option Float := none
  /-- where the log goes -/
  logFile : Option Text := none
  /-- how often more log was asked for -/
  verbosity : Nat := 0

/-- What the program is asked for. -/
inductive Command where
  | version
  | help
  /-- to work on the document at a path -/
  | run (path : Text) (r : Request)

/-- The number of a text of digits, if it is not beyond a bound. -/
def digits? (most : Nat) (s : Text) : Option Nat :=
  if s.isEmpty || !s.all Char.isDigit then none
  else
    let n := decimalValue s
    if n ≤ most then some n else none

/-- The number of a slide: digits behind an optional plus, within 64 bits and not zero. -/
def slideNumber? (s : Text) : Option Nat :=
  let n? := digits? (UInt64.size - 1) (match s with | '+' :: ds => ds | ds => ds)
  n?.filter (0 < ·)

/-- A whole number that is not negative: digits behind an optional sign, within 63 bits. -/
def amount? : Text → Option Nat
  | '-' :: ds => digits? 0 ds
  | '+' :: ds => digits? (Nat.pow 2 63 - 1) ds
  | ds => digits? (Nat.pow 2 63 - 1) ds

/-- A path; any text but the empty one. -/
def path? (s : Text) : Option Text :=
  if s.isEmpty then none else some s

/-- The format of a name; nothing for the name of playing. -/
def format? (s : Text) : Option (Option Listing.Format) :=
  if s = "play".toList then some none else (Listing.Format.ofName? s).map some

namespace Request

/-- A request with an option set; nothing if the value means nothing to the option. -/
def set? (r : Request) (o : Opt) (value : Text) : Option Request :=
  match o with
  | .config => (path? value).map fun p => { r with config := some p }
  | .format => (format? value).map fun f => { r with format := f }
  | .slide => (slideNumber? value).map fun n => { r with slide := some n }
  | .typingSpeed => (amount? value).map fun n => { r with typingSpeed := some n }
  | .deletingSpeed => (amount? value).map fun n => { r with deletingSpeed := some n }
  | .afterDeletePause => (amount? value).map fun n => { r with afterDeletePause := some n }
  | .seed => (amount? value).map fun n => { r with seed := some n }
  | .jitter => (Double.read? value).map fun f => { r with jitter := some f }
  | .logFile => (path? value).map fun p => { r with logFile := some p }
  | .verbose | .help | .version => none

end Request

/-- The command of items, where the options in `seen` have been set before. -/
def command (seen : List Opt) (r : Request) : List Item → Except Misuse Command
  | [] =>
    match r.path with
    | some path => .ok (.run path r)
    | none => .error .noPath
  | .misuse fault :: _ => .error fault
  | .flag .version :: _ => .ok .version
  | .flag .help :: _ => .ok .help
  | .flag _ :: items => command seen { r with verbosity := r.verbosity + 1 } items
  | .word w :: items =>
    if r.path.isSome then .error (.surplus w) else command seen { r with path := some w } items
  | .setting o value :: items =>
    if o ∈ seen then .error (.repeated o)
    else match r.set? o value with
      | some r => command (o :: seen) r items
      | none => .error (.badValue o value)

/-- The command of words. -/
def read (words : List Text) : Except Misuse Command :=
  if words.isEmpty then .error .empty else command [] {} (items none words)

/-! ## What to say -/

/-- The version of the program. -/
def versionText : Text := "texttype 0.1.0\n".toList

/-- How the program is used, line by line. -/
def usageLines : List String :=
  [ "Play typewriter-style markup in the terminal",
    "",
    "Usage: texttype [OPTIONS] <path>",
    "",
    "Options:",
    "  -c, --config <file>            extra settings, laid over the others",
    "  -f, --format <format>          play, markup, token-json, token-yaml, token-simple or final",
    "      --slide <number>           only this slide, counted from one",
    "      --typing-speed <ms>        delay after a typed character",
    "      --deleting-speed <ms>      delay after an erased character",
    "      --after-delete-pause <ms>  how long a region is held before it is erased",
    "      --jitter <share>           how much delays vary, 0 for not at all",
    "      --seed <number>            what decides how delays vary",
    "      --log-file <file>          where the log goes",
    "  -v, --verbose                  more log; twice for all of it",
    "  -h, --help                     this text",
    "  -V, --version                  the version" ]

/-- How the program is used. -/
def usageText : Text :=
  usageLines.flatMap fun line => line.toList ++ ['\n']

/-- An option as it is written. -/
def Opt.text (o : Opt) : Text :=
  '-' :: '-' :: o.name.toList

/-- What to say of a command line that is wrong. -/
def Misuse.message : Misuse → Text
  | .empty => usageText
  | .unknown word => "unexpected argument '".toList ++ word ++ "' found".toList
  | .missingValue o => "a value is required for '".toList ++ o.text ++ ['\'']
  | .unwantedValue o => "unexpected value for '".toList ++ o.text ++ ['\'']
  | .badValue o value =>
    "invalid value '".toList ++ value ++ "' for '".toList ++ o.text ++ ['\'']
  | .repeated o => "the argument '".toList ++ o.text ++ "' cannot be used multiple times".toList
  | .surplus word => "unexpected argument '".toList ++ word ++ "' found".toList
  | .noPath => "the path of a document is required".toList

end CommandLine

end Typist
