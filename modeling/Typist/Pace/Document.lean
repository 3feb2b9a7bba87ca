import Typist.Json.Number
import Typist.Json.Read
import Typist.Pace

/-!
# Paces as documents

A pace can be given as a JSON object with a member for each setting, or as an array of the settings
in their order. What is left out keeps its usual value. Each setting has a name with underscores and
one in camel case; members with other names are passed over, and a setting given twice is refused.

A document is read once, from its start, and the first fault decides what is wrong with it: whether
it is not JSON (`PaceFault.notJson`), or JSON that describes no pace (`PaceFault.wrongData`).
-/

namespace Typist

/-- What is wrong with the document of a pace. -/
inductive PaceFault where
  /-- it is not JSON, or a number in it is too large for a double -/
  | notJson
  /-- it is not an object or an array, or a setting is given twice or has a wrong value -/
  | wrongData
  deriving DecidableEq, Repr

namespace Pace

/-- The settings. -/
inductive Setting where
  | typing
  | erasing
  | jitter
  | hold
  | seed
  deriving DecidableEq, Repr

namespace Setting

/-- The settings in their order. -/
def all : List Setting := [.typing, .erasing, .jitter, .hold, .seed]

/-- The names of a setting. -/
def names : Setting → List String
  | .typing => ["typing_speed", "typingSpeed"]
  | .erasing => ["deleting_speed", "deletingSpeed"]
  | .jitter => ["random_jitter", "randomJitter"]
  | .hold => ["after_delete_pause", "afterDeletePause"]
  | .seed => ["seed"]

/-- The setting of a name. -/
def ofName? (s : Text) : Option Setting :=
  all.find? fun f => f.names.any (·.toList = s)

end Setting

/-- The fault of a text that starts with something else than a number. A string or a word has to be
sound before it can be of the wrong kind. -/
def faultAt (s : Text) : PaceFault :=
  match s with
  | '[' :: _ => .wrongData
  | '{' :: _ => .wrongData
  | _ =>
    match Json.value? s with
    | some (.string body, _) => if (Json.unescape? body).isSome then .wrongData else .notJson
    | some (.number n, _) => if n.value?.isSome then .wrongData else .notJson
    | some _ => .wrongData
    | none => .notJson

/-- A number, and what follows it. -/
def readNumber (s : Text) : Except PaceFault (NumeralValue × Text) :=
  match s with
  | c :: _ =>
    if c = '-' || c.isDigit then
      match Json.numeral? s with
      | some (n, rest) =>
        match n.value? with
        | some v => .ok (v, rest)
        | none => .error .notJson
      | none => .error .notJson
    else .error (faultAt s)
  | [] => .error .notJson

/-- A whole number of 64 bits. -/
def readWord (s : Text) : Except PaceFault (UInt64 × Text) :=
  match readNumber s with
  | .ok (.natural v, rest) => .ok (v, rest)
  | .ok _ => .error .wrongData
  | .error fault => .error fault

/-- Any number, as a double. -/
def readShare (s : Text) : Except PaceFault (Float × Text) :=
  match readNumber s with
  | .ok (.natural v, rest) => .ok (v.toFloat, rest)
  | .ok (.negative v, rest) => .ok (-(UInt64.ofNat v).toFloat, rest)
  | .ok (.float f, rest) => .ok (f, rest)
  | .error fault => .error fault

/-- A seed, or `null` for none. -/
def readSeed (s : Text) : Except PaceFault (Option UInt64 × Text) :=
  match s with
  | 'n' :: _ =>
    match Text.after? "null".toList s with
    | some rest => .ok (none, rest)
    | none => .error .notJson
  | _ => (readWord s).map fun (v, rest) => (some v, rest)

/-- A pace with a setting read from a text. -/
def readSetting (f : Setting) (p : Pace) (s : Text) : Except PaceFault (Pace × Text) :=
  let s := Json.skipSpace s
  match f with
  | .typing => (readWord s).map fun (v, rest) => ({ p with typing := v }, rest)
  | .erasing => (readWord s).map fun (v, rest) => ({ p with erasing := v }, rest)
  | .jitter => (readShare s).map fun (v, rest) => ({ p with jitter := v }, rest)
  | .hold => (readWord s).map fun (v, rest) => ({ p with hold := v }, rest)
  | .seed => (readSeed s).map fun (v, rest) => ({ p with seed := v }, rest)

/-- What follows a character that must come next, blanks aside. -/
def expect (c : Char) (s : Text) : Except PaceFault Text :=
  match Json.skipSpace s with
  | d :: rest => if c = d then .ok rest else .error .notJson
  | [] => .error .notJson

/-- Settings given in order, up to the bracket behind them. -/
def readItems (p : Pace) (isFirst : Bool) : List Setting → Text → Except PaceFault (Pace × Text)
  | [], s => (expect ']' s).map fun rest => (p, rest)
  | f :: fs, s =>
    match Json.skipSpace s with
    | ']' :: rest => .ok (p, rest)
    | s => do
      let s ← if isFirst then .ok s else expect ',' s
      if (Json.skipSpace s).head? = some ']' then throw .notJson
      let (p, s) ← readSetting f p s
      readItems p false fs s

/-- One member behind its opening quote; `given` are the settings that were met before. -/
def readMember (p : Pace) (given : List Setting) (s : Text) : Except PaceFault ((Pace × List Setting) × Text) := do
  let some (body, s) := Json.body? s | throw .notJson
  let some name := Json.unescape? body | throw .notJson
  match Setting.ofName? name with
  | some f =>
    if f ∈ given then throw .wrongData
    let (p, s) ← readSetting f p (← expect ':' s)
    return ((p, f :: given), s)
  | none =>
    let some (_, s) := Json.value? (← expect ':' s) | throw .notJson
    return ((p, given), s)

/-- Members up to the brace behind them; `steps` bounds how many there can be. -/
def readMembers (p : Pace) (given : List Setting) (isFirst : Bool) :
    (steps : Nat) → Text → Except PaceFault (Pace × Text)
  | 0, _ => .error .notJson
  | steps + 1, s =>
    match Json.skipSpace s with
    | '}' :: rest => .ok (p, rest)
    | s => do
      let s ← if isFirst then .ok s else expect ',' s
      let s ← expect '"' s
      let ((p, given), s) ← readMember p given s
      readMembers p given false steps s

/-- The pace that a document describes. -/
def ofDocument (s : Text) : Except PaceFault Pace := do
  let (p, rest) ← match Json.skipSpace s with
    | '{' :: s => readMembers usual [] true (s.length + 1) s
    | '[' :: s => readItems usual true Setting.all s
    | s => .error (faultAt s)
  if (Json.skipSpace rest).isEmpty then return p else throw .notJson

end Pace

end Typist
