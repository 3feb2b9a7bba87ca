import Typist.Delay

/-!
# Cancellation

A run can be cancelled from outside at any moment, and takes notice where it waits. What matters of
the outside is when it fires: at once, right after a certain change of the surface, while a certain
wait is being asked for, when a certain wait is over, or after a certain time.
-/

namespace Typist

/-- What a run does that others can see. -/
inductive Occasion where
  /-- it hung up a node -/
  | append
  /-- it took a node off -/
  | remove
  /-- it asks for a wait -/
  | request
  /-- a wait is over -/
  | wake
  deriving DecidableEq, Repr

/-- When a run is to be cancelled. -/
inductive Cancel where
  | never
  /-- it has been cancelled -/
  | fired
  /-- at the occasion of a kind that comes after `left` more of that kind -/
  | countdown (occasion : Occasion) (left : Nat)
  /-- after so many milliseconds of waiting -/
  | deadline (millis : Nat)
  deriving DecidableEq, Repr

namespace Cancel

/-- What is left after an occasion. -/
def pass (o : Occasion) : Cancel → Cancel
  | .countdown occasion left =>
    if o = occasion then
      match left with
      | 0 => .fired
      | left + 1 => .countdown occasion left
    else .countdown occasion left
  | c => c

/-- What is left after a wait, or inside it if the time runs out before the wait does. -/
def elapse (d : Delay) : Cancel → Cancel
  | .deadline millis =>
    if millis < d.wakeMillis then .fired else .deadline (millis - d.wakeMillis)
  | c => c

@[simp] theorem pass_never (o : Occasion) : pass o .never = .never := rfl

@[simp] theorem elapse_never (d : Delay) : elapse d .never = .never := rfl

/-- What has fired stays so. -/
@[simp] theorem pass_fired (o : Occasion) : pass o .fired = .fired := rfl

end Cancel

end Typist
