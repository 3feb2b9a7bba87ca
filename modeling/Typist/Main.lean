import Typist.Program
import Typist.Rehearsal
import Typist.Screen.Terminal

/-!
# The executable

The program on the machine it runs on. Here is what no proof needs to see: reading and writing files,
asking the clock, and moving characters between the terminal and a show. What to do with them is said
in `Typist.Program` and `Typist.Show`.

The terminal is taken as it is. One that hands over what is typed line by line does so here too.
-/

namespace Typist

/-- What keeps a path from being read or created; other faults are the machine's own. -/
def pathFault (e : IO.Error) : IO PathFault :=
  match e with
  | .noFileOrDirectory .. => return .absent
  | .inappropriateType _ code _ => return if code = 20 then .blocked else .directory
  | e => throw e

instance : Host IO where
  read path := do
    try
      let bytes ← IO.FS.readBinFile (String.ofList path)
      return match String.fromUTF8? bytes with
        | some text => .ok text.toList
        | none => .error .undecodable
    catch e => return .error (← pathFault e)
  create path := do
    try
      IO.FS.writeFile (String.ofList path) ""
      return .ok ()
    catch e => return .error (← pathFault e)
  appendLine path line := do
    let file ← IO.FS.Handle.mk (String.ofList path) .append
    file.putStrLn (String.ofList line)
  complain line := IO.eprintln (String.ofList line)

/-- A number from the environment, or another one. -/
def numberFrom (name : String) (dflt : Nat) : IO Nat := do
  return ((← IO.getEnv name).bind String.toNat?).getD dflt

/-- The word of some bytes, the lowest one first. -/
def wordOf (bytes : ByteArray) : UInt32 :=
  bytes.toList.foldr (fun byte word => word <<< 8 ||| byte.toUInt32) 0

/-- The one who uses the program. -/
def theUser : IO Program.User := do
  let screen ←
    if ← (← IO.getStdout).isTty then
      pure (some ⟨← numberFrom "COLUMNS" 80, ← numberFrom "LINES" 24⟩)
    else pure none
  let bytes ← IO.getRandomBytes 32
  return {
    configHome := (← IO.getEnv "XDG_CONFIG_HOME").map String.toList
    home := ((← IO.getEnv "HOME").getD "").toList
    screen
    entropy := .ofFn fun i => wordOf (bytes.extract (4 * i) (4 * i + 4)) }

/-- Prints at once. -/
def print (text : Text) : IO Unit := do
  let out ← IO.getStdout
  out.putStr (String.ofList text)
  out.flush

/-- A show on a terminal. -/
structure Performance where
  /-- the show, with nothing left that happens at once -/
  now : Show
  /-- the beginning of a sequence of characters that is no key yet -/
  begun : Text := []
  /-- when the delay is over that the show waits for -/
  due : Option Nat := none
  /-- the picture that the terminal shows -/
  shown : Option Picture := none

/-- Draws what has changed. -/
def Performance.draw (p : Performance) : IO Performance := do
  match p.now.picture? with
  | some picture =>
    if p.shown = some picture then return p
    else
      print (Terminal.draw picture)
      return { p with shown := some picture }
  | none => return p

/-- The performance with its show moved on to another state. A delay that was waited for before is not
begun anew. -/
def Performance.move (p : Performance) (s : Show) : IO Performance := do
  let due ←
    if s.stage = p.now.stage && p.due.isSome then pure p.due
    else match s.delay? with
      | some delay => pure (some ((← IO.monoNanosNow) + delay.nanos))
      | none => pure none
  { p with now := s, due }.draw

/-- Performs a show until it is over, where the next characters are on their way. -/
partial def Performance.run (p : Performance) (typed : Task (Except IO.Error ByteArray)) :
    IO Show := do
  if p.now.ending?.isSome then return p.now
  if ← IO.hasFinished typed then
    let bytes := match typed.get with
      | .ok bytes => bytes
      | .error _ => .empty
    let wantsOut : Key := { code := .escape }
    let (keys, begun) := match String.fromUTF8? bytes with
      | some text => if text.isEmpty then ([wantsOut], []) else Key.decode p.begun text.toList
      | none => ([], p.begun)
    let s := keys.foldl Show.press p.now
    let p ← { p with begun }.move s
    if s.ending?.isSome then return s
    p.run (← IO.asTask ((← IO.getStdin).read 64) .dedicated)
  else
    match p.due, p.now.tick? with
    | some due, some next =>
      if due ≤ (← IO.monoNanosNow) then
        ({ ← { p with due := none }.move next.settle with begun := p.begun }).run typed
      else
        IO.sleep 5
        p.run typed
    | _, _ =>
      IO.sleep 5
      p.run typed

/-- Performs a show on the terminal, which is then as it was before. -/
def perform (s : Show) : IO Show := do
  print Terminal.enter
  try
    let p ← { now := s : Performance }.move s.settle
    p.run (← IO.asTask ((← IO.getStdin).read 64) .dedicated)
  finally
    print Terminal.leave

end Typist

open Typist in
/-- Runs the program, and tells the machine how it ended. -/
def main (args : List String) : IO UInt32 := do
  try
    let upshot ← Program.run (m := IO) (← theUser) (args.map String.toList)
    match upshot with
    | .printed text => print text
    | .misused fault => IO.eprintln (String.ofList fault.message)
    | .failed fault => IO.eprintln ("Error: " ++ String.ofList fault.message)
    | .overflow => IO.eprintln "a delay is too long"
    | .showing s book =>
      let s ← perform s
      book.write s.log
      if let some (.undrawn attempt) := s.ending? then
        IO.eprintln ("Error: " ++ String.ofList (Projector.failureText attempt))
      return UInt32.ofNat ((s.ending?.map Program.codeOf).getD 0)
    return UInt32.ofNat (upshot.code?.getD 0)
  catch e =>
    IO.eprintln ("Error: " ++ toString e)
    return 1
