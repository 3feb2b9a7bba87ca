import Typist.Markup.Tokenize
import Typist.Run

/-!
# Log entries

What the program tells a reader of its log. Each entry has a level and a line of text; numbers and
names belong to a line as `key=value` behind its words.
-/

namespace Typist

/-- How much an entry matters, from most to least. -/
inductive Level where
  | error
  | warn
  | info
  | debug
  | trace
  deriving DecidableEq, Repr

namespace Level

/-- The name of a level in the log. -/
def label : Level → Text
  | .error => "ERROR".toList
  | .warn => "WARN".toList
  | .info => "INFO".toList
  | .debug => "DEBUG".toList
  | .trace => "TRACE".toList

/-- The place of a level: `1` for what matters most, `5` for what matters least. -/
def rank : Level → Nat
  | .error => 1
  | .warn => 2
  | .info => 3
  | .debug => 4
  | .trace => 5

end Level

namespace Log

/-- One line of the log. -/
structure Entry where
  level : Level
  text : Text
  deriving DecidableEq, Repr

/-- The entry on its line. -/
def Entry.line (e : Entry) : Text :=
  e.level.label ++ ' ' :: e.text

/-- A number behind the words of an entry. -/
def numberField (key : String) (value : Nat) : Text :=
  ' ' :: (key.toList ++ '=' :: decimal value)

/-- The entry for something that looks like a tag and is none. -/
def ofWarning : Warning → Entry
  | .strayDelete offset =>
    ⟨.trace, "unmatched <delete>, keeping it as text".toList ++ numberField "offset" offset⟩
  | .strayPause offset =>
    ⟨.trace, "malformed <pause> tag, keeping '<' as text".toList ++ numberField "offset" offset⟩

/-- The entry for a remark of a run. -/
def ofNote : Note → Entry
  | .ignoredClose tag =>
    ⟨.trace, "close tag without an open scope, ignoring tag=".toList ++ tag.name⟩
  | .typingRegion tokens =>
    ⟨.trace, "delete region: typing".toList ++ numberField "tokens" tokens⟩
  | .erasingRegion units =>
    ⟨.debug, "delete region: erasing".toList ++ numberField "units" units⟩

/-- What a run counted, behind the words of an entry. -/
def unitFields (s : Summary) : Text :=
  numberField "typed" s.typed ++ numberField "deleted" s.erased

/-- The entries for how a run ended. A run that was too slow for a delay says nothing. -/
def ofHalt (s : Summary) : Option Halt → List Entry
  | none => [⟨.debug, "typing run finished".toList ++ unitFields s⟩]
  | some .cancelled => [⟨.info, "typing run cancelled".toList ++ unitFields s⟩]
  | some .overflow => []

/-- The entries of a run of so many tokens. -/
def ofRun {σ : Type} (tokens : Nat) (o : Outcome σ) : List Entry :=
  ⟨.debug, "typing run started".toList ++ numberField "tokens" tokens⟩ ::
    (o.notes.map ofNote ++ ofHalt o.final.summary o.halt)

/-- The entry for how playing a slide ended, after the entries of its run. -/
def ofPlayed (place : Nat) (s : Summary) : Option Halt → List Entry
  | none => [⟨.debug, "slide typed".toList ++ numberField "slide" place ++ numberField "typed" s.typed⟩]
  | some .cancelled =>
    [⟨.info, "stopped by user".toList ++ numberField "slide" place ++ numberField "typed" s.typed⟩]
  | some .overflow => []

end Log

end Typist
