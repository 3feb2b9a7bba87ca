import Typist.Log.Entry

/-!
# The log

Which entries are kept, and where they go.

A log keeps the entries up to a level, or none. The level is set by its name in any case, by a number
from `0` for none to `5` for all, or by the empty text for errors; being talkative on the command line
overrides it. Entries go to a file if one is named. Otherwise they go to standard error, unless the
screen is in use.
-/

namespace Typist.Log

/-- The least level that is kept; nothing if none is. -/
abbrev Threshold := Option Level

/-- The levels with their names. -/
def levelNames : List (String × Threshold) :=
  [("off", none), ("error", some .error), ("warn", some .warn), ("info", some .info),
    ("debug", some .debug), ("trace", some .trace)]

/-- The name of a threshold. -/
def thresholdName (t : Threshold) : String :=
  ((levelNames.find? (·.2 = t)).map Prod.fst).getD "off"

/-- The threshold that a number stands for. -/
def numberedThreshold? (s : Text) : Option Threshold :=
  let ds := match s with
    | '+' :: t => t
    | t => t
  if ds.isEmpty || !ds.all Char.isDigit then none
  else (levelNames[decimalValue ds]?).map Prod.snd

/-- The threshold that a setting names. -/
def threshold? (s : Text) : Option Threshold :=
  if s.isEmpty then some (some .error)
  else match numberedThreshold? s with
    | some t => some t
    | none =>
      (levelNames.find? fun (name, _) => name.toList = s.map Char.toLower).map Prod.snd

/-- The threshold for a setting and a number of requests for more. -/
def chooseThreshold? (setting : Text) : (verbosity : Nat) → Option Threshold
  | 0 => threshold? setting
  | 1 => some (some .debug)
  | _ => some (some .trace)

/-- What to say of a setting that names no threshold. -/
def unknownLevelText (setting : Text) : Text :=
  "unknown log level '".toList ++ setting ++ ['\'']

/-- Whether an entry is kept. -/
def keeps (t : Threshold) (e : Entry) : Bool :=
  t.any fun level => e.level.rank ≤ level.rank

/-- Where entries go. -/
inductive Target where
  | standardError
  | file (path : Text)
  | nowhere
  deriving DecidableEq, Repr

/-- Where entries go, for a named file and a screen that may be in use. -/
def chooseTarget (file : Option Text) (screenInUse : Bool) : Target :=
  match file with
  | some path => .file path
  | none => if screenInUse then .nowhere else .standardError

end Typist.Log
