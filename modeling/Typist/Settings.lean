import Typist.Deck
import Typist.Pace
import Typist.Settings.Color
import Typist.Settings.Path
import Typist.Toml

/-!
# Settings

Everything that can be set, in four sections: the pace, the marker of slides, the looks of the player,
and the log. Settings are laid over each other: the built-in ones, files in their order, and single
values that override them all. What comes out is read section by section.

* A file may have to be there, or may be missing; a file that is there has to be sound.
* The path of an overriding value is checked before anything is read.
* A section is a table, or a list of its settings in their order. Of the pace, what is left out keeps
  its usual value; elsewhere nothing may be left out.
* Names that mean nothing here are passed over.
-/

namespace Typist

/-- How the player gets from one slide to the next. -/
inductive Advance where
  /-- it waits for a key -/
  | key
  /-- it goes on by itself -/
  | auto
  deriving DecidableEq, Repr

/-- The name of a way to advance. -/
def Advance.name : Advance → String
  | .key => "key"
  | .auto => "auto"

/-- The way to advance of a name, in any case. -/
def Advance.ofName? (s : Text) : Option Advance :=
  [Advance.key, .auto].find? (·.name.toList = s.lowercase)

/-- How the player looks and moves on. -/
structure Viewer where
  /-- what is drawn behind the last typed character -/
  cursor : Text := ['|']
  /-- the color of gray text, as it was set -/
  grayColor : Text := "#8a8a8a".toList
  /-- whether titles are shown -/
  showTitle : Bool := true
  advance : Advance := .key
  /-- how long to hold before the next slide when nobody is waited for, in milliseconds -/
  gapMillis : UInt64 := 1500
  deriving DecidableEq, Repr

/-- The color of gray text, if it is set to one. -/
def Viewer.gray? (v : Viewer) : Option Rgb :=
  Rgb.ofText? v.grayColor

/-- All settings. -/
structure Settings where
  pace : Pace := .usual
  /-- what headers of slides begin with -/
  marker : Text := Deck.usualMarker
  viewer : Viewer := {}
  /-- the name of the least level that is logged -/
  logLevel : Text := "warn".toList

/-- What is wrong with settings. -/
inductive SettingsFault where
  /-- a file that has to be there is missing -/
  | missingFile
  /-- a file is not sound -/
  | unsoundFile
  /-- an overriding value has no proper path -/
  | badPath
  /-- a setting has a value of another kind -/
  | wrongKind (key : Text) (expected : Expected)
  /-- a section is neither a table nor a list, or something is left out in it, or there is no such
  way to advance -/
  | wrongShape
  deriving DecidableEq, Repr

/-- A file of settings, with its content if it is there. -/
inductive Layer where
  /-- a file that has to be there -/
  | required (content : Option Text)
  /-- a file that may be missing -/
  | optional (content : Option Text)

namespace Settings

/-- The built-in settings as a table. -/
def builtIn : Value :=
  .table [
    ("typing".toList, .table [
      ("typing_speed".toList, .int 55),
      ("deleting_speed".toList, .int 28),
      ("random_jitter".toList, .float 0.3),
      ("after_delete_pause".toList, .int 160)]),
    ("slides".toList, .table [("header_marker".toList, .text Deck.usualMarker)]),
    ("viewer".toList, .table [
      ("cursor".toList, .text ['|']),
      ("gray_color".toList, .text "#8a8a8a".toList),
      ("show_title".toList, .bool true),
      ("advance".toList, .text "key".toList),
      ("slide_gap_ms".toList, .int 1500)]),
    ("log".toList, .table [("level".toList, .text "warn".toList)])]

/-- A table with a file laid over it. -/
def overlay (root : Value) : Layer → Except SettingsFault Value
  | .required none => .error .missingFile
  | .optional none => .ok root
  | .required (some content) | .optional (some content) =>
    match Toml.read? content with
    | some entries => .ok (root.layer entries)
    | none => .error .unsoundFile

/-- A table with files laid over it in their order. -/
def overlays : List Layer → Value → Except SettingsFault Value
  | [], root => .ok root
  | layer :: layers, root => do overlays layers (← overlay root layer)

/-- The paths of overriding values with these values. -/
def paths : List (Text × Value) → Except SettingsFault (List (List PathStep × Value))
  | [] => .ok []
  | (key, value) :: rest =>
    match path? key with
    | some path => do return (path, value) :: (← paths rest)
    | none => .error .badPath

/-! ## Reading sections -/

/-- A section: for the name and the place of a setting, how messages call it, and its value. -/
abbrev Section := String → Nat → Option (Text × Value)

/-- A section of a table. -/
def section? (root : Value) (name : String) : Except SettingsFault Section :=
  match root.under? name.toList with
  | some (.table es) => .ok fun field _ =>
    ((Value.table es).under? field.toList).map fun v => (name.toList ++ '.' :: field.toList, v)
  | some (.list vs) => .ok fun _ place =>
    vs[place]?.map fun v => (name.toList ++ '[' :: decimal place ++ [']'], v)
  | _ => .error .wrongShape

/-- A setting that may be left out. -/
def settingOr {α : Type} (dflt : α) (read : Value → Except Expected α) :
    Option (Text × Value) → Except SettingsFault α
  | none => .ok dflt
  | some (key, v) => (read v).mapError (.wrongKind key)

/-- A setting that has to be there. -/
def setting {α : Type} (read : Value → Except Expected α) :
    Option (Text × Value) → Except SettingsFault α
  | none => .error .wrongShape
  | some (key, v) => (read v).mapError (.wrongKind key)

/-- A seed; nothing stands for none. -/
def seedOf : Value → Except Expected (Option UInt64)
  | .nil => .ok none
  | v => v.toWord.map some

/-- A way to advance, given by its name or as the one name in a table. -/
def advanceOf : Option (Text × Value) → Except SettingsFault Advance
  | some (_, .text s) | some (_, .table [(s, _)]) =>
    match Advance.ofName? s with
    | some a => .ok a
    | none => .error .wrongShape
  | _ => .error .wrongShape

/-- The pace in its section. -/
def readPace (s : Section) : Except SettingsFault Pace := do
  let usual := Pace.usual
  return {
    typing := ← settingOr usual.typing Value.toWord (s "typing_speed" 0)
    erasing := ← settingOr usual.erasing Value.toWord (s "deleting_speed" 1)
    jitter := ← settingOr usual.jitter Value.toFloat (s "random_jitter" 2)
    hold := ← settingOr usual.hold Value.toWord (s "after_delete_pause" 3)
    seed := ← settingOr none seedOf (s "seed" 4) }

/-- The looks of the player in their section. -/
def readViewer (s : Section) : Except SettingsFault Viewer := do
  return {
    cursor := ← setting Value.toText (s "cursor" 0)
    grayColor := ← setting Value.toText (s "gray_color" 1)
    showTitle := ← setting Value.toBool (s "show_title" 2)
    advance := ← advanceOf (s "advance" 3)
    gapMillis := ← setting Value.toWord (s "slide_gap_ms" 4) }

/-- The settings in a table. -/
def ofValue (root : Value) : Except SettingsFault Settings := do
  let pace ← readPace (← section? root "typing")
  let marker ← setting Value.toText ((← section? root "slides") "header_marker" 0)
  let viewer ← readViewer (← section? root "viewer")
  let logLevel ← setting Value.toText ((← section? root "log") "level" 0)
  return { pace, marker, viewer, logLevel }

/-- The settings that files and overriding values make up. -/
def load (layers : List Layer) (overrides : List (Text × Value)) :
    Except SettingsFault Settings := do
  let overrides ← paths overrides
  let root ← overlays layers builtIn
  ofValue (overrides.foldl (fun root (path, value) => Value.place value path root) root)

end Settings

end Typist
