import Typist.Log.Entry
import Typist.Markup.Display
import Typist.Markup.Serial
import Typist.Scene
import Typist.Yaml.Scalar

/-!
# Listings

A deck on paper, in one of five formats. Two of them are documents that hold all slides with their
tokens. The other three write each slide as a block — its title on a line, if it has one, and then
its markup, its tokens in display form, or the text that stays when it has been typed — and put an
empty line between each two blocks.

A listing of final texts types every slide, so it can fail where a run can.
-/

namespace Typist

namespace Listing

/-- What a listing shows of each slide. -/
inductive Format where
  | markup
  | tokenJson
  | tokenYaml
  | tokenSimple
  | final
  deriving DecidableEq, Repr

/-- The name of a format. -/
def Format.name : Format → String
  | .markup => "markup"
  | .tokenJson => "token-json"
  | .tokenYaml => "token-yaml"
  | .tokenSimple => "token-simple"
  | .final => "final"

/-- All formats. -/
def Format.all : List Format :=
  [.markup, .tokenJson, .tokenYaml, .tokenSimple, .final]

/-- The format of a name. -/
def Format.ofName? (s : Text) : Option Format :=
  all.find? (·.name.toList = s)

/-! ## Blocks -/

/-- The block of a slide. Every block ends its last line; the block of a slide without a title and
with nothing to show is an empty line if it is the first one, and nothing at all behind the empty
line that parts it from others. -/
def block (isFirst : Bool) (title body : Text) : Text :=
  let text := (if title.isEmpty then [] else title ++ ['\n']) ++ body
  match text.getLast? with
  | some '\n' => text
  | some _ => text ++ ['\n']
  | none => if isFirst then ['\n'] else []

/-- The blocks of titles with their bodies, an empty line between each two. -/
def blocks : List (Text × Text) → Text
  | [] => []
  | (title, body) :: rest =>
    block true title body ++ rest.flatMap fun (title, body) => '\n' :: block false title body

/-- The blocks of slides, where `body` says what to show of each. -/
def blocksOf (body : Slide → Text) (slides : List Slide) : Text :=
  blocks (slides.map fun s => (s.title, body s))

/-! ## Documents -/

/-- The slides with their tokens as a JSON document. -/
def json (slides : List Slide) : Json :=
  .array <| slides.map fun s =>
    .object [("title".toList, .ofText s.title),
      ("tokens".toList, .array (Token.jsons (tokensToPlay s.body)))]

/-- A line break, if there is none yet. -/
def endLine (s : Text) : Text :=
  if s.getLast?.any Yaml.isBreak then s else s ++ ['\n']

/-- A member of a YAML mapping whose names stand in a column, behind what stands to its left. -/
def yamlMember (left : Text) (column : Nat) (name : String) (value : Text) : Text :=
  endLine (left ++ name.toList ++ ": ".toList ++ Yaml.scalar (column + 2) value)

/-- Blanks up to a column. -/
def blanks (column : Nat) : Text := List.replicate column ' '

mutual

/-- A token as an item of a YAML sequence whose dashes stand in a column. -/
def yamlToken (column : Nat) : Token → Text
  | .text value =>
    yamlKind column "text" ++ yamlMember (blanks (column + 2)) (column + 2) "value" value
  | .pause millis =>
    yamlKind column "pause" ++ blanks (column + 2) ++ "duration_ms: ".toList ++
      decimal millis.toNat ++ ['\n']
  | .scopeStart tag =>
    yamlKind column "scope_start" ++ yamlMember (blanks (column + 2)) (column + 2) "tag" tag.name
  | .scopeEnd tag =>
    yamlKind column "scope_end" ++ yamlMember (blanks (column + 2)) (column + 2) "tag" tag.name
  | .delete inner =>
    yamlKind column "delete" ++ blanks (column + 2) ++ "inner:".toList ++
      yamlTokens (column + 2) inner

/-- Tokens as a YAML sequence behind a colon. -/
def yamlTokens (column : Nat) : List Token → Text
  | [] => " []\n".toList
  | t :: ts => '\n' :: yamlItems column (t :: ts)

/-- Tokens as items of a YAML sequence. -/
def yamlItems (column : Nat) : List Token → Text
  | [] => []
  | t :: ts => yamlToken column t ++ yamlItems column ts

/-- The first line of an item: the kind of the token. -/
def yamlKind (column : Nat) (kind : String) : Text :=
  blanks column ++ "- type: ".toList ++ kind.toList ++ ['\n']

end

/-- The slides with their tokens as a YAML document. -/
def yaml (slides : List Slide) : Text :=
  if slides.isEmpty then "[]\n".toList
  else slides.flatMap fun s =>
    yamlMember "- ".toList 2 "title" s.title ++ "  tokens:".toList ++
      yamlTokens 2 (tokensToPlay s.body)

/-! ## The final text -/

/-- The text that stays of each slide; nothing if one cannot be typed. -/
def finalTexts (pace : Pace) : List Slide → Option (List Text)
  | [] => some []
  | s :: rest =>
    let o := s.play pace .never
    if o.halt = some .overflow then none
    else (finalTexts pace rest).map (o.final.surface.text :: ·)

/-- A listing; nothing if it cannot be made. -/
def render (format : Format) (pace : Pace) (slides : List Slide) : Option Text :=
  match format with
  | .tokenJson => some ((json slides).pretty ++ ['\n'])
  | .tokenYaml => some (yaml slides)
  | .markup => some (blocksOf (fun s => Token.markups (tokensToPlay s.body)) slides)
  | .tokenSimple => some (blocksOf (fun s => Token.displays (tokensToPlay s.body)) slides)
  | .final => (finalTexts pace slides).map fun texts =>
    blocks ((slides.map (·.title)).zip texts)

/-- What the log gets while a listing is made. -/
def log (format : Format) (pace : Pace) : List Slide → List Log.Entry
  | [] => []
  | s :: rest =>
    let warned := (warnings s.body).map Log.ofWarning
    if format = .final then
      let o := s.play pace .never
      warned ++ Log.ofRun (tokensToPlay s.body).length o ++
        (if o.halt = some .overflow then [] else log format pace rest)
    else warned ++ log format pace rest

end Listing

end Typist
