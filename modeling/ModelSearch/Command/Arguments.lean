import ModelSearch.Solver.State
import ModelSearch.Text.Numeral

/-!
# Command-line arguments

Arguments are read from left to right, and the first that decides the matter
does so: a request for the version or for help, or an argument that cannot be
accepted.  Each option may be given once.  The value of an option follows it in
the same argument, after an equals sign or directly after a letter, or it is the
next argument, which then may not look like an option.
-/

namespace ModelSearch.Command

/-- The options there are. -/
inductive Switch where
  | debug
  | noLearning
  | timeLimit
  | model
  | stats
  | version
  | help
  deriving Repr, DecidableEq

namespace Switch

def ofName? : String → Option Switch
  | "debug" => some .debug
  | "no-learning" => some .noLearning
  | "time-limit" => some .timeLimit
  | "model" => some .model
  | "stats" => some .stats
  | "version" => some .version
  | "help" => some .help
  | _ => none

def ofLetter? : Char → Option Switch
  | 'd' => some .debug
  | 't' => some .timeLimit
  | 'm' => some .model
  | 's' => some .stats
  | 'V' => some .version
  | 'h' => some .help
  | _ => none

def takesValue : Switch → Bool
  | .debug | .timeLimit => true
  | _ => false

end Switch

/-- What to do with a formula. -/
structure Options where
  /-- The file with the formula, if it is not read from standard input. -/
  file : Option String := none
  configuration : Configuration := {}
  /-- Whether a model is shown. -/
  model : Bool := false
  /-- Whether the counts are shown. -/
  stats : Bool := false
  deriving Repr, DecidableEq

/-- What the arguments ask for. -/
inductive Request where
  | solve (options : Options)
  | showVersion
  | showHelp
  /-- The arguments cannot be accepted. -/
  | refused
  deriving Repr, DecidableEq

/-- The options so far, the switches seen, the switch that waits for its value,
and whether all further arguments are files. -/
structure Scan where
  options : Options := {}
  seen : List Switch := []
  waiting : Option Switch := none
  filesOnly : Bool := false

namespace Scan

/-- Marks a switch as given; only the first time is accepted. -/
def note (scan : Scan) (switch : Switch) : Except Request Scan :=
  if scan.seen.contains switch then .error .refused
  else .ok { scan with seen := switch :: scan.seen }

/-- Turns on a switch that takes no value. -/
def turnOn (scan : Scan) (switch : Switch) : Except Request Scan := do
  let noted ← scan.note switch
  let options := noted.options
  match switch with
  | .noLearning =>
      let configuration := { options.configuration with learning := false }
      return { noted with options := { options with configuration } }
  | .model => return { noted with options := { options with model := true } }
  | .stats => return { noted with options := { options with stats := true } }
  | .version => throw .showVersion
  | .help => throw .showHelp
  | .debug | .timeLimit => throw .refused

/-- Gives a switch its value.  The level of logging is checked, but has no
effect. -/
def giveValue (scan : Scan) (switch : Switch) (value : List Char) : Except Request Scan := do
  let noted ← { scan with waiting := none }.note switch
  match switch with
  | .debug =>
      match Text.integer? value with
      | some level => if 0 ≤ level ∧ level ≤ 255 then return noted else throw .refused
      | none => throw .refused
  | .timeLimit =>
      match Text.word? value with
      | some seconds =>
          let options := noted.options
          let configuration := { options.configuration with timeLimit := some seconds }
          return { noted with options := { options with configuration } }
      | none => throw .refused
  | _ => throw .refused

/-- Takes the one file there may be. -/
def takeFile (scan : Scan) (path : String) : Except Request Scan :=
  if path.isEmpty || scan.options.file.isSome then .error .refused
  else .ok { scan with options := { scan.options with file := some path } }

/-- Reads an option by name, with its value if one is attached. -/
def takeNamed (scan : Scan) (text : List Char) : Except Request Scan :=
  let name := text.takeWhile (· != '=')
  let attached := (text.dropWhile (· != '=')).drop 1
  let hasValue := text.contains '='
  match Switch.ofName? (String.ofList name) with
  | none => .error .refused
  | some switch =>
      match switch.takesValue, hasValue with
      | true, true => scan.giveValue switch attached
      | true, false => .ok { scan with waiting := some switch }
      | false, false => scan.turnOn switch
      | false, true => .error .refused

/-- Reads options by letter; the first that takes a value takes all that
follows. -/
def takeLetters (scan : Scan) : List Char → Except Request Scan
  | [] => .ok scan
  | letter :: letters =>
      match Switch.ofLetter? letter with
      | none => .error .refused
      | some switch =>
          if switch.takesValue then
            match letters with
            | [] => .ok { scan with waiting := some switch }
            | '=' :: value => scan.giveValue switch value
            | value => scan.giveValue switch value
          else do
            let next ← scan.turnOn switch
            next.takeLetters letters

/-- Reads one argument. -/
def take (scan : Scan) (argument : String) : Except Request Scan :=
  let text := argument.toList
  match scan.waiting with
  | some switch =>
      match text with
      | '-' :: _ => .error .refused
      | value => scan.giveValue switch value
  | none =>
      if scan.filesOnly then scan.takeFile argument
      else
        match text with
        | ['-', '-'] => .ok { scan with filesOnly := true }
        | '-' :: '-' :: name => scan.takeNamed name
        | '-' :: letter :: letters => scan.takeLetters (letter :: letters)
        | _ => scan.takeFile argument

end Scan

/-- What a list of arguments asks for. -/
def Request.ofArguments (arguments : List String) : Request :=
  match arguments.foldlM Scan.take {} with
  | .error request => request
  | .ok scan => if scan.waiting.isSome then .refused else .solve scan.options

end ModelSearch.Command
