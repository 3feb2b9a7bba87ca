import Typist.Key.Decode
import Typist.Show.Course

/-!
# Rehearsals

A show in front of a user who follows a plan: to look until the screen shows certain rows, to press
keys, and to change the size of the screen. Time runs on only while the user looks, and the user is
done looking as soon as the rows are there and the screen is about to stay as it is for a while.

Keys are pressed all at once, and everything that follows from one of them at once has happened before
the next one is read.
-/

namespace Typist

namespace Show

/-- The texts of the rows on the screen, while the show lasts. -/
def rows? (s : Show) : Option (List Text) :=
  s.picture?.map Screen.rowTexts

/-- The show when everything has happened that happens at once. -/
def settle (s : Show) : Show :=
  (s.moments.head?.map Prod.fst).getD s

/-- The show when nobody touches a key any more. -/
def settleForGood (s : Show) : Show :=
  (s.moments.getLast?.map Prod.fst).getD s

/-- Whether the screen keeps these rows for some nanoseconds. -/
def keepsRows (rows : List Text) : (nanos : Nat) → List (Show × Option Nat) → Bool
  | _, [] => true
  | nanos, (s, lasting?) :: later =>
    s.rows? = some rows &&
      match lasting? with
      | none => true
      | some lasting => nanos ≤ lasting || keepsRows rows (nanos - lasting) later

/-- How long the screen has to stay as it is, in nanoseconds. -/
def steadyNanos : Nat := 40 * nanosPerMilli

/-- The first of some moments at which the wanted rows are there and the screen stays as it is. -/
def sight? (wanted : List Text) : List (Show × Option Nat) → Option (Show × List Text)
  | [] => none
  | (s, lasting?) :: later =>
    let here := s.rows?.filter fun rows =>
      wanted.all (· ∈ rows) && keepsRows rows steadyNanos ((s, lasting?) :: later)
    match here with
    | some rows => some (s, rows)
    | none => sight? wanted later

/-- Presses a key. Nobody takes it if the reader has stopped. -/
def press (s : Show) (k : Key) : Show :=
  ((s.read? k.meaning).getD s).settle

end Show

/-- What a user does. -/
inductive Deed where
  /-- to look until some rows are there -/
  | look (wanted : List Text)
  /-- to press keys, given as the characters that they send -/
  | press (keys : Text)
  /-- to change the size of the screen -/
  | resize (size : Size)
  deriving DecidableEq, Repr

/-- What a user sees. -/
inductive Sight where
  /-- the rows of the screen -/
  | rows (texts : List Text)
  /-- nothing: the rows that are wanted never come -/
  | missed
  /-- nothing: the show is over before they come -/
  | over
  deriving DecidableEq, Repr

/-- A show in front of a user. -/
structure Rehearsal where
  now : Show
  /-- the beginning of a sequence of characters that is no key yet -/
  begun : Text := []
  /-- what the user has seen, the last sight first -/
  sights : List Sight := []

namespace Rehearsal

/-- The rehearsal of a show that begins. -/
def ofShow (s : Show) : Rehearsal where
  now := s.settle

/-- The user looks. -/
def look (r : Rehearsal) (wanted : List Text) : Rehearsal :=
  match Show.sight? wanted r.now.moments with
  | some (s, rows) => { r with now := s, sights := .rows rows :: r.sights }
  | none =>
    let s := r.now.settleForGood
    { r with now := s, sights := (if s.ending?.isSome then .over else .missed) :: r.sights }

/-- The user presses keys. -/
def press (r : Rehearsal) (keys : Text) : Rehearsal :=
  let (keys, begun) := Key.decode r.begun keys
  { r with now := keys.foldl Show.press r.now, begun }

/-- The user changes the size of the screen. -/
def resize (r : Rehearsal) (size : Size) : Rehearsal :=
  let s := r.now.resize size
  { r with now := ((s.read? .redraw).getD s).settle }

/-- The user does something. -/
def perform (r : Rehearsal) : Deed → Rehearsal
  | .look wanted => r.look wanted
  | .press keys => r.press keys
  | .resize size => r.resize size

/-- The rehearsal of a show in front of a user with a plan, up to its end. -/
def run (s : Show) (plan : List Deed) : Rehearsal :=
  let r := plan.foldl perform (.ofShow s)
  { r with now := r.now.settleForGood }

end Rehearsal

end Typist
