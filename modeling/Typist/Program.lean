import Typist.CommandLine
import Typist.Host
import Typist.Log
import Typist.Show

/-!
# The program

What the program does for a command, on any host. It reads the settings, opens the log, reads the
document and takes it apart into slides, and then lists them or begins to show them. The first thing
that goes wrong ends it; what has been done before stays done.

Settings are laid over each other: the built-in ones, the file of the user, which may be missing, a
file named on the command line, and single settings from there.
-/

namespace Typist

namespace Program

/-- What a host tells about the one who uses it. -/
structure User where
  /-- where settings of programs are kept -/
  configHome : Option Text
  home : Text
  /-- the size of the screen, if there is one that can be drawn on -/
  screen : Option Size
  /-- what decides how delays vary when nothing else does -/
  entropy : ChaCha.Key := .zero

/-- Where the settings of a user are, if they are anywhere. A place that is not given in full, from the
root, does not count. -/
def User.settingsPath (u : User) : Text :=
  let kept := match u.configHome with
    | some ('/' :: path) => '/' :: path
    | _ => u.home ++ "/.config".toList
  kept ++ "/texttype/config.toml".toList

/-- Why the program fails. -/
inductive Fault where
  | settings (fault : SettingsFault)
  /-- there is no such level of the log -/
  | unknownLevel (setting : Text)
  /-- the log cannot be created -/
  | noLog (fault : PathFault)
  /-- the document cannot be read -/
  | unreadable (path : Text) (fault : PathFault)
  /-- there is no such slide -/
  | noSlide (wanted available : Nat)
  /-- there is no screen to show the slides on -/
  | noScreen
  deriving DecidableEq, Repr

/-- What to say of settings that are wrong. -/
def settingsMessage : SettingsFault → Text
  | .missingFile => "the file of settings is missing".toList
  | .unsoundFile => "a file of settings is not sound".toList
  | .badPath => "a setting has no proper name".toList
  | .wrongKind key expected =>
    "the setting '".toList ++ key ++ "' is not ".toList ++ expected.words.toList
  | .wrongShape => "a section of the settings is not as it should be".toList

/-- What to say of a fault. -/
def Fault.message : Fault → Text
  | .settings fault => "configuration: ".toList ++ settingsMessage fault
  | .unknownLevel setting => Log.unknownLevelText setting
  | .noLog fault => fault.message
  | .unreadable path fault =>
    "cannot read ".toList ++ path ++ ": ".toList ++ fault.message
  | .noSlide wanted available =>
    "slide ".toList ++ decimal wanted ++ " is out of range, the document has ".toList ++
      decimal available
  | .noScreen => "the player needs an interactive terminal, try --format final".toList

/-! ## Settings -/

/-- Where a whole-number setting of the command line belongs among the settings. -/
def overrides (r : CommandLine.Request) : List (Text × Value) :=
  let numbers := [
    ("typing.typing_speed", r.typingSpeed), ("typing.deleting_speed", r.deletingSpeed),
    ("typing.after_delete_pause", r.afterDeletePause), ("typing.seed", r.seed)]
  (numbers.filterMap fun (key, n?) => n?.map fun n => (key.toList, Value.int n)) ++
    (r.jitter.map fun f => ("typing.random_jitter".toList, Value.float f)).toList

section

variable {m : Type → Type} [Monad m] [Host m]

/-- The text of a file of settings, where an ending may have been left out of its name. Nothing if
neither is a file; `some none` if it is one without a text. -/
def settingsFile (path : Text) : m (Option (Option Text)) := do
  match ← Host.read path with
  | .ok text => return some (some text)
  | .error .undecodable => return some none
  | .error _ =>
    match ← Host.read (path ++ ".toml".toList) with
    | .ok text => return some (some text)
    | .error .undecodable => return some none
    | .error _ => return none

/-- The settings for a request. -/
def settings (u : User) (r : CommandLine.Request) : m (Except SettingsFault Settings) := do
  let own ← settingsFile u.settingsPath
  let layers ← match r.config with
    | none => pure [Layer.optional own.join]
    | some path => do
      let named ← settingsFile path
      pure [Layer.optional own.join, Layer.required named.join]
  return Settings.load layers (overrides r)

/-! ## The log -/

/-- A log that is open. -/
structure Logbook where
  target : Log.Target
  threshold : Log.Threshold

/-- Writes the entries that the log keeps. -/
def Logbook.write (book : Logbook) (entries : List Log.Entry) : m Unit := do
  for entry in entries.filter (Log.keeps book.threshold) do
    match book.target with
    | .nowhere => pure ()
    | .standardError => Host.complain entry.line
    | .file path => Host.appendLine path entry.line

/-- Opens the log for a request. -/
def openLog (s : Settings) (r : CommandLine.Request) : m (Except Fault Logbook) := do
  let some threshold := Log.chooseThreshold? s.logLevel r.verbosity
    | return .error (.unknownLevel s.logLevel)
  let target := Log.chooseTarget r.logFile r.format.isNone
  match target with
  | .file path =>
    match ← Host.create path with
    | .ok () => return .ok { target, threshold }
    | .error fault => return .error (.noLog fault)
  | _ => return .ok { target, threshold }

end

/-! ## Documents -/

/-- A document that has been read, with the settings and the log for it. -/
structure Opened where
  settings : Settings
  book : Logbook
  raw : Text

/-- The slides of a document. -/
def Opened.slides (d : Opened) : List Slide :=
  Deck.slides d.settings.marker d.raw

/-- The slides that are wanted: all of them, or the one at a place, counted from one. -/
def choose (wanted : Option Nat) (slides : List Slide) : Except Fault (List Slide) :=
  match wanted with
  | none => .ok slides
  | some 0 => .error (.noSlide 0 slides.length)
  | some (n + 1) =>
    match slides[n]? with
    | some s => .ok [s]
    | none => .error (.noSlide (n + 1) slides.length)

/-- The pace for a user, whose entropy decides how delays vary if the settings do not. One key serves
all slides. -/
def paceFor (u : User) (s : Settings) : Pace :=
  { s.pace with entropy := u.entropy }

/-- The entry for a document that has been read. -/
def loadedEntry (path : Text) (slides : Nat) (format : Option Listing.Format) : Log.Entry :=
  let name := (format.map Listing.Format.name).getD "play"
  ⟨.debug, "document loaded path=".toList ++ path ++ Log.numberField "slides" slides ++
    " format=\"".toList ++ name.toList ++ ['"']⟩

/-- The entry for a document without slides. -/
def nothingEntry : Log.Entry :=
  ⟨.debug, "nothing to play".toList⟩

/-- How far the program has come. -/
inductive Upshot where
  /-- it is done, and has this to print -/
  | printed (text : Text)
  /-- it was told what it does not understand -/
  | misused (fault : CommandLine.Misuse)
  | failed (fault : Fault)
  /-- it came to a delay that is too long to be one -/
  | overflow
  /-- it has begun a show, with a log for it -/
  | showing (s : Show) (book : Logbook)

/-- What comes of a listing: it is printed, if it can be made. -/
def Upshot.ofListing : Option Text → Upshot
  | some text => .printed text
  | none => .overflow

section

variable {m : Type → Type} [Monad m] [Host m]

/-- Lists or shows slides. -/
def present (u : User) (s : Settings) (r : CommandLine.Request) (book : Logbook)
    (slides : List Slide) : m Upshot := do
  let pace := paceFor u s
  match r.format with
  | some format =>
    book.write (Listing.log format pace slides)
    return .ofListing (Listing.render format pace slides)
  | none =>
    if slides.isEmpty then
      book.write [nothingEntry]
      return .printed []
    else
      let some size := u.screen | return .failed .noScreen
      let some started := Show.begin? pace s.viewer size slides | return .printed []
      return .showing started book

/-- Reads the document at a path, once the settings for a request are read and its log is open. -/
def openDocument (u : User) (path : Text) (r : CommandLine.Request) : m (Except Fault Opened) := do
  match ← settings u r with
  | .error fault => return .error (.settings fault)
  | .ok s =>
    match ← openLog s r with
    | .error fault => return .error fault
    | .ok book =>
      match ← Host.read path with
      | .error fault => return .error (.unreadable path fault)
      | .ok raw => return .ok ⟨s, book, raw⟩

/-- Does what a request wants with the document at a path. -/
def work (u : User) (path : Text) (r : CommandLine.Request) : m Upshot := do
  match ← openDocument u path r with
  | .error fault => return .failed fault
  | .ok d =>
    match choose r.slide d.slides with
    | .error fault => return .failed fault
    | .ok slides =>
      d.book.write [loadedEntry path slides.length r.format]
      present u d.settings r d.book slides

/-- Does what the words of a command line want. -/
def run (u : User) (words : List Text) : m Upshot :=
  match CommandLine.read words with
  | .error fault => return .misused fault
  | .ok .version => return .printed CommandLine.versionText
  | .ok .help => return .printed CommandLine.usageText
  | .ok (.run path r) => work u path r

end

/-- How the program tells others how it ended: `0` if all went well, `1` if it failed, `2` if it was
misused, `101` if it came to a delay that is too long. -/
def Upshot.code? : Upshot → Option Nat
  | .printed _ => some 0
  | .failed _ => some 1
  | .misused _ => some 2
  | .overflow => some 101
  | .showing _ _ => none

/-- How the program tells others how a show ended. -/
def codeOf : Ending → Nat
  | .finished => 0
  | .overflow => 101
  | .undrawn _ => 1

end Program

end Typist
