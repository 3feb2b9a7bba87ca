import Typist.Json.Number
import Typist.Json.Read
import Typist.Markup.Token

/-!
# Tokens as documents

A token is written as a JSON object: its kind stands under `type`, and what it carries under one
more name. Reading takes the members in any order and passes over others; a missing member, a value
of the wrong kind or an unknown name makes the whole list unreadable.
-/

namespace Typist.Token

/-- The member `type` of a kind. -/
def kindMember (kind : String) : Text × Json :=
  ("type".toList, .ofText kind.toList)

mutual

/-- A token as a document. -/
def json : Token → Json
  | .text value => .object [kindMember "text", ("value".toList, .ofText value)]
  | .pause millis => .object [kindMember "pause", ("duration_ms".toList, .ofNat millis.toNat)]
  | .scopeStart tag => .object [kindMember "scope_start", ("tag".toList, .ofText tag.name)]
  | .scopeEnd tag => .object [kindMember "scope_end", ("tag".toList, .ofText tag.name)]
  | .delete inner => .object [kindMember "delete", ("inner".toList, .array (jsons inner))]

/-- Tokens as documents. -/
def jsons : List Token → List Json
  | [] => []
  | t :: ts => t.json :: jsons ts

end

/-- The duration that a document gives: a whole number of 64 bits. -/
def millisOf? : Json → Option UInt64
  | .number n =>
    match n.value? with
    | some (.natural millis) => some millis
    | _ => none
  | _ => none

/-- The tag that a document names. -/
def tagOf? (j : Json) : Option Tag :=
  j.text?.bind Tag.ofName?

mutual

/-- The token that a document describes. -/
def ofJson? : Json → Option Token
  | .object members => do
    let kind ← (Json.object members).member? "type".toList >>= Json.text?
    let field (name : String) := (Json.object members).member? name.toList
    if kind = "text".toList then return .text (← field "value" >>= Json.text?)
    else if kind = "pause".toList then return .pause (← field "duration_ms" >>= millisOf?)
    else if kind = "scope_start".toList then return .scopeStart (← field "tag" >>= tagOf?)
    else if kind = "scope_end".toList then return .scopeEnd (← field "tag" >>= tagOf?)
    else if kind = "delete".toList then return .delete (← (innerOf? members).join)
    else none
  | _ => none

/-- The tokens that an array describes. -/
def listOfJson? : Json → Option (List Token)
  | .array items => ofJsons? items
  | _ => none

/-- The tokens that documents describe. -/
def ofJsons? : List Json → Option (List Token)
  | [] => some []
  | j :: js =>
    match ofJson? j, ofJsons? js with
    | some t, some ts => some (t :: ts)
    | _, _ => none

/-- The tokens under the last member `inner`, if there is one and it can be read. -/
def innerOf? : List (Text × Json) → Option (Option (List Token))
  | [] => none
  | (name, j) :: ms =>
    match innerOf? ms with
    | some found => some found
    | none => if name = "inner".toList then some (listOfJson? j) else none

end

end Typist.Token
