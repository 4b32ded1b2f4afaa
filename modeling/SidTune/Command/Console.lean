/-!
# Console output

A command prints, and ends with a status or with a failure. What it prints is a list of spans. A
span may be styled, which shows when colours are on; one kind of span stands for the time that the
command has taken, which is known only at the end.

## Main definitions

* `SidTune.Command.Style`, `SidTune.Command.Span`: spans and their styles.
* `SidTune.Command.render`: the text of spans.
* `SidTune.Command.coloursOn`: whether colours are on.
* `SidTune.Command.Verdict`, `SidTune.Command.Result`: what becomes of a command.
* `SidTune.Command.chainText`: the message of a failure.
-/

namespace SidTune.Command

/-! ### Spans -/

/-- The colours in use. -/
inductive Colour where
  | red
  | green
  | yellow
  | cyan
  deriving DecidableEq, Repr

/-- The code of a colour. -/
def Colour.code : Colour → String
  | red => "31"
  | green => "32"
  | yellow => "33"
  | cyan => "36"

/-- How a span is shown when colours are on. -/
inductive Style where
  | dimmed
  | coloured (colour : Colour)
  | bold (colour : Colour)
  deriving DecidableEq, Repr

/-- The codes of a style. -/
def Style.codes : Style → String
  | dimmed => "2"
  | coloured colour => colour.code
  | bold colour => "1;" ++ colour.code

/-- A piece of output. -/
inductive Span where
  | plain (text : String)
  | styled (style : Style) (text : String)
  /-- The milliseconds that the command has taken. -/
  | elapsed
  deriving DecidableEq, Repr

/-- The text of a span. -/
def Span.render (colours : Bool) (elapsed : String) : Span → String
  | plain text => text
  | styled style text =>
    if colours then "\x1b[" ++ style.codes ++ "m" ++ text ++ "\x1b[0m" else text
  | .elapsed => elapsed

/-- The text of spans. -/
def render (colours : Bool) (elapsed : String) (spans : List Span) : String :=
  String.join (spans.map (Span.render colours elapsed))

/-- Whether colours are on, by three environment variables and whether the output is a terminal: a
forced choice goes before a refusal, and that before the default, which the first variable may turn
off. The value `0` of a variable says no. -/
def coloursOn (wanted? refused? forced? : Option String) (terminal : Bool) : Bool :=
  if forced?.any (· != "0") then true
  else if refused?.isSome then false
  else wanted?.all (· != "0") && terminal

/-- A line with a styled word before a plain text. -/
def headed (style : Style) (word text : String) : List Span :=
  [.styled style word, .plain (" " ++ text ++ "\n")]

/-! ### Outcomes -/

/-- How a command ends. -/
inductive Verdict where
  | exit (status : UInt8)
  /-- A failure: what was attempted, what went wrong, and what is behind it. -/
  | failed (chain : List String)
  deriving DecidableEq, Repr

/-- What a command prints, and how it ends. -/
structure Result where
  output : List Span
  verdict : Verdict
  deriving DecidableEq, Repr

/-- The message of a failure. -/
def chainText (chain : List String) : String :=
  String.intercalate ": " chain

end SidTune.Command
