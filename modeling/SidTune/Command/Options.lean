import SidTune.Build.Make

/-!
# The command line

The command line gives an input path and, unless the song is only to be checked, an output path.
Options stand anywhere; after a double dash everything is a path. An option is given at most once,
except that the flag for a more talkative log may be repeated.

## Main definitions

* `SidTune.Command.Options`: what a command line asks for.
* `SidTune.Command.Request`: options, or one of the two questions that a command line may ask.
* `SidTune.Command.parseArguments`: the request of a command line.
-/

namespace SidTune.Command

/-- What a command line asks for. -/
structure Options where
  input : Path
  output? : Option Path
  assembler? : Option Path
  timeLimit : Nat
  checkOnly : Bool
  verbosity : Nat
  deriving DecidableEq, Repr

/-- How the assembler is found and run. -/
def Options.settings (o : Options) : Build.Settings :=
  ⟨o.assembler?, o.timeLimit, true⟩

/-- What a command line may be. -/
inductive Request where
  | run (options : Options)
  | help
  | version
  deriving DecidableEq, Repr

/-! ### Arguments so far -/

/-- What has been read of a command line. -/
structure Draft where
  /-- The paths, latest first. -/
  paths : List Path
  assembler? : Option Path
  timeLimit? : Option Nat
  checkOnly : Bool
  verbosity : Nat

/-- Nothing read. -/
def Draft.empty : Draft := ⟨[], none, none, false, 0⟩

/-- Takes a path, of which there are at most two; no path is empty. -/
def Draft.path? (d : Draft) (text : String) : Option Draft :=
  if text = "" ∨ 2 ≤ d.paths.length then none else some { d with paths := ⟨text⟩ :: d.paths }

/-- Takes the path of the assembler. -/
def Draft.setAssembler? (d : Draft) (text : String) : Option Draft :=
  if text = "" ∨ d.assembler?.isSome then none else some { d with assembler? := some ⟨text⟩ }

/-- A number of seconds below `2 ^ 64`; a plus sign may stand before its digits. -/
def seconds? (text : String) : Option Nat :=
  let digits := match text.toList with
    | '+' :: rest => rest
    | rest => rest
  if digits ≠ [] ∧ digits.all Char.isDigit then
    let n := digits.foldl (fun n c => 10 * n + (c.toNat - '0'.toNat)) 0
    if n < 0x10000000000000000 then some n else none
  else none

/-- Takes the time that the assembler is given. -/
def Draft.setTimeLimit? (d : Draft) (text : String) : Option Draft :=
  match d.timeLimit?, seconds? text with
  | none, some n => some { d with timeLimit? := some n }
  | _, _ => none

/-- Takes the flag that only checks. -/
def Draft.setCheck? (d : Draft) : Option Draft :=
  if d.checkOnly then none else some { d with checkOnly := true }

/-- Takes `count` flags for a more talkative log. -/
def Draft.louder (d : Draft) (count : Nat) : Draft :=
  { d with verbosity := d.verbosity + count }

/-- What a complete draft asks for. -/
def Draft.finish? (d : Draft) : Option Request :=
  let options (input : Path) (output? : Option Path) : Request :=
    .run ⟨input, output?, d.assembler?, d.timeLimit?.getD Build.usualTimeLimit, d.checkOnly,
      d.verbosity⟩
  match d.paths with
  | [output, input] => some (options input (some output))
  | [input] => if d.checkOnly then some (options input none) else none
  | _ => none

/-! ### Reading arguments -/

/-- What an argument is. -/
inductive Token where
  | path (text : String)
  /-- Everything after it is a path. -/
  | endOfOptions
  /-- A long option, with its value if that is attached. -/
  | long (name : String) (value? : Option String)
  /-- One or more one-letter options. -/
  | short (letters : List Char)
  deriving DecidableEq, Repr

/-- Reads an argument. A single dash is a path. -/
def Token.ofArgument (argument : String) : Token :=
  match argument.toList with
  | ['-', '-'] => .endOfOptions
  | '-' :: '-' :: rest =>
    let name := String.ofList (rest.takeWhile (· ≠ '='))
    match rest.dropWhile (· ≠ '=') with
    | [] => .long name none
    | _ :: value => .long name (some (String.ofList value))
  | '-' :: c :: rest => .short (c :: rest)
  | _ => .path argument

/-- What the one-letter options of an argument do: a draft, or a question. -/
def shortOptions? (d : Draft) : List Char → Option (Draft ⊕ Request)
  | [] => some (.inl d)
  | 'v' :: rest => shortOptions? (d.louder 1) rest
  | 'h' :: _ => some (.inr .help)
  | 'V' :: _ => some (.inr .version)
  | _ => none

/-- Takes paths only. -/
def readPaths? (d : Draft) : List String → Option Request
  | [] => d.finish?
  | argument :: rest => (d.path? argument).bind fun d => readPaths? d rest

/-- Reads arguments onto a draft. The value of an option is attached to it or is the next argument,
which then must not be an option. -/
def readArguments? (d : Draft) : List String → Option Request
  | [] => d.finish?
  | argument :: rest =>
    match Token.ofArgument argument with
    | .path text => (d.path? text).bind fun d => readArguments? d rest
    | .endOfOptions => readPaths? d rest
    | .short letters =>
      match shortOptions? d letters with
      | some (.inl d) => readArguments? d rest
      | some (.inr request) => some request
      | none => none
    | .long "check" none => d.setCheck?.bind fun d => readArguments? d rest
    | .long "verbose" none => readArguments? (d.louder 1) rest
    | .long "help" none => some .help
    | .long "version" none => some .version
    | .long name (some value) =>
      (match name with
        | "assembler" => d.setAssembler? value
        | "timeout-secs" => d.setTimeLimit? value
        | _ => none).bind fun d => readArguments? d rest
    | .long name none =>
      match rest with
      | [] => none
      | value :: rest =>
        match Token.ofArgument value with
        | .path value =>
          (match name with
            | "assembler" => d.setAssembler? value
            | "timeout-secs" => d.setTimeLimit? value
            | _ => none).bind fun d => readArguments? d rest
        | _ => none

/-- The request of a command line, or nothing if it is wrong. -/
def parseArguments (arguments : List String) : Option Request :=
  readArguments? Draft.empty arguments

end SidTune.Command
