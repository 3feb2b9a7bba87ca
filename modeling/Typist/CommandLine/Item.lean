import Typist.Text

/-!
# Items of a command line

The words of a command line, taken apart: options with their values, and words that stand for
themselves.

* An option is written with two hyphens and its name, or with one and its letter. Letters can share a
  hyphen.
* A value follows its option behind an equals sign, or as the next word if that does not look like an
  option. Behind a letter the rest of the word is the value, with or without an equals sign.
* A word that begins with a hyphen looks like an option, but for a hyphen alone.
* Two hyphens end the options: all words behind them stand for themselves.

Taking apart never fails; what is wrong becomes an item of its own at its place. So whoever reads the
items in order meets the first fault first, and may be done before it.
-/

namespace Typist.CommandLine

/-- What can be set on a command line. -/
inductive Opt where
  | config
  | format
  | slide
  | typingSpeed
  | deletingSpeed
  | afterDeletePause
  | seed
  | jitter
  | logFile
  | verbose
  | help
  | version
  deriving DecidableEq, Repr

namespace Opt

/-- The name of an option, behind its two hyphens. -/
def name : Opt → String
  | .config => "config"
  | .format => "format"
  | .slide => "slide"
  | .typingSpeed => "typing-speed"
  | .deletingSpeed => "deleting-speed"
  | .afterDeletePause => "after-delete-pause"
  | .seed => "seed"
  | .jitter => "jitter"
  | .logFile => "log-file"
  | .verbose => "verbose"
  | .help => "help"
  | .version => "version"

/-- The letter of an option, if it has one. -/
def letter? : Opt → Option Char
  | .config => some 'c'
  | .format => some 'f'
  | .verbose => some 'v'
  | .help => some 'h'
  | .version => some 'V'
  | _ => none

/-- Whether an option has a value. -/
def takesValue : Opt → Bool
  | .verbose | .help | .version => false
  | _ => true

/-- All options. -/
def all : List Opt :=
  [.config, .format, .slide, .typingSpeed, .deletingSpeed, .afterDeletePause, .seed, .jitter,
    .logFile, .verbose, .help, .version]

/-- The option of a name. -/
def ofName? (s : Text) : Option Opt :=
  all.find? (·.name.toList = s)

/-- The option of a letter. -/
def ofLetter? (c : Char) : Option Opt :=
  all.find? (·.letter? = some c)

end Opt

/-- What is wrong with a command line. -/
inductive Misuse where
  /-- there is not a single word -/
  | empty
  /-- there is no such option -/
  | unknown (word : Text)
  /-- an option has no value -/
  | missingValue (opt : Opt)
  /-- an option has a value that it does not take -/
  | unwantedValue (opt : Opt)
  /-- an option has a value that means nothing to it -/
  | badValue (opt : Opt) (value : Text)
  /-- an option is given twice -/
  | repeated (opt : Opt)
  /-- a word is left over -/
  | surplus (word : Text)
  /-- there is no path -/
  | noPath
  deriving DecidableEq, Repr

/-- A part of a command line. -/
inductive Item where
  /-- an option without a value -/
  | flag (opt : Opt)
  /-- an option with a value -/
  | setting (opt : Opt) (value : Text)
  /-- a word that stands for itself -/
  | word (value : Text)
  | misuse (fault : Misuse)
  deriving DecidableEq, Repr

/-- Whether a word cannot be a value because it looks like an option. -/
def looksLikeOption : Text → Bool
  | '-' :: _ :: _ => true
  | _ => false

/-- The name and the value of an option that is written with its name. -/
def nameAndValue (s : Text) : Text × Option Text :=
  match s.dropWhile (· ≠ '=') with
  | [] => (s, none)
  | _ :: value => (s.takeWhile (· ≠ '='), some value)

/-- The items of letters behind one hyphen, and the option whose value is the next word, if there is
one. -/
def letters : Text → List Item × Option Opt
  | [] => ([], none)
  | c :: cs =>
    match Opt.ofLetter? c with
    | none => ([.misuse (.unknown ['-', c])], none)
    | some o =>
      if o.takesValue then
        match cs with
        | [] => ([], some o)
        | c :: cs => ([.setting o (if c = '=' then cs else c :: cs)], none)
      else
        let (items, pending) := letters cs
        (.flag o :: items, pending)

/-- The items of a word that begins with two hyphens, given what is behind them, and the option whose
value is the next word. -/
def named (s : Text) : List Item × Option Opt :=
  let (name, value) := nameAndValue s
  match Opt.ofName? name, value with
  | none, _ => ([.misuse (.unknown ('-' :: '-' :: s))], none)
  | some o, none => if o.takesValue then ([], some o) else ([.flag o], none)
  | some o, some value =>
    if o.takesValue then ([.setting o value], none) else ([.misuse (.unwantedValue o)], none)

/-- The items of words, where an option may still want its value. -/
def items : (pending : Option Opt) → List Text → List Item
  | none, [] => []
  | some o, [] => [.misuse (.missingValue o)]
  | some o, w :: ws =>
    if looksLikeOption w then [.misuse (.missingValue o)] else .setting o w :: items none ws
  | none, ['-', '-'] :: ws => ws.map .word
  | none, ('-' :: '-' :: s) :: ws =>
    let (here, pending) := named s
    here ++ items pending ws
  | none, ('-' :: c :: cs) :: ws =>
    let (here, pending) := letters (c :: cs)
    here ++ items pending ws
  | none, w :: ws => .word w :: items none ws

end Typist.CommandLine
