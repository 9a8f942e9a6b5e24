/-!
# Styled text

Pieces of text in bold, dimmed or coloured type for a terminal. On a terminal without colours a
piece is its plain text.
-/

namespace CodeFacts.Report

/-- The colours of a terminal that reports use. -/
inductive Color where
  | red
  | green
  | yellow
  | blue
  | magenta
  | cyan
deriving DecidableEq, Repr, Inhabited

/-- The terminal code of a colour. -/
def Color.code : Color → String
  | red => "31"
  | green => "32"
  | yellow => "33"
  | blue => "34"
  | magenta => "35"
  | cyan => "36"

/-- How a piece of text is shown. -/
structure Style where
  bold : Bool := false
  dimmed : Bool := false
  color : Option Color := none
deriving DecidableEq, Repr, Inhabited

namespace Style

/-- The terminal codes of a style. -/
def codes (style : Style) : List String :=
  (if style.bold then ["1"] else []) ++ (if style.dimmed then ["2"] else []) ++
    (style.color.map Color.code).toList

/-- What switches all styles off. -/
def reset : String := "\x1b[0m"

/-- What switches a style on. -/
def start (style : Style) : String :=
  "\x1b[" ++ ";".intercalate style.codes ++ "m"

end Style

/-- Whether the terminal shows colours. -/
structure Terminal where
  colors : Bool
deriving DecidableEq, Repr, Inhabited

namespace Terminal

/-- A styled piece of text. If the text itself switches styles off, the style is switched on
again behind that. -/
def paint (terminal : Terminal) (style : Style) (text : String) : String :=
  if terminal.colors then
    style.start ++ text.replace Style.reset (Style.reset ++ style.start) ++ Style.reset
  else text

/-- A dimmed piece of text. -/
def dim (terminal : Terminal) (text : String) : String :=
  terminal.paint { dimmed := true } text

/-- A bold piece of text. -/
def strong (terminal : Terminal) (text : String) : String :=
  terminal.paint { bold := true } text

/-- A coloured piece of text. -/
def tint (terminal : Terminal) (color : Color) (text : String) : String :=
  terminal.paint { color := some color } text

/-- A bold and coloured piece of text. -/
def strongTint (terminal : Terminal) (color : Color) (text : String) : String :=
  terminal.paint { bold := true, color := some color } text

end Terminal

/-- A text filled up with spaces behind it. -/
def padEnd (width : Nat) (text : String) : String :=
  text ++ String.ofList (List.replicate (width - text.length) ' ')

/-- A text filled up with spaces before it. -/
def padStart (width : Nat) (text : String) : String :=
  String.ofList (List.replicate (width - text.length) ' ') ++ text

end CodeFacts.Report
