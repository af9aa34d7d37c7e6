import ModelSearch.Command.Arguments
import ModelSearch.Command.Files
import ModelSearch.Dimacs.Load
import ModelSearch.Solver.Search

/-!
# What a run of the command shows

A run reads a formula, searches for a model, and ends with an exit code and some
lines.  The formula has no theory atoms, so its solver has none.  The search is a
separate step, as it may take time; everything else is settled here.
-/

namespace ModelSearch.Command

/-- Exit code and lines of a run. -/
structure Transcript where
  exitCode : Nat
  lines : List String
  deriving Repr, DecidableEq

/-- The lines as text, each ended by a line feed. -/
def Transcript.text (transcript : Transcript) : String :=
  String.join (transcript.lines.map (· ++ "\n"))

/-- The text of an error: its area, its cause, and what belongs to the cause. -/
def describe (error : SolverError) : String :=
  let detail :=
    match error with
    | .duplicateVariable name => "(\"" ++ name ++ "\")"
    | _ => (error.detail?.map fun detail => "(" ++ detail ++ ")").getD ""
  error.area ++ "(" ++ error.cause ++ detail ++ ")"

/-- A run that ends with a broken rule shows nothing. -/
def ofFault (intro : String) : Fault → Transcript
  | .error error => ⟨1, [intro ++ describe error]⟩
  | .abort _ => ⟨101, []⟩
  | .outOfFuel => ⟨0, ["s " ++ Report.unknown.render]⟩

/-- Opens a source and loads its formula. -/
def loadSource (options : Options) (source : Source) : Except Transcript (Solver Empty) :=
  let loaded (document : Dimacs.Document) : Except Transcript (Solver Empty) :=
    match (Dimacs.load document).run (Solver.new options.configuration) with
    | .ok _ solver => .ok solver
    | .error fault _ => .error (ofFault "c Error loading DIMACS: " fault)
  match source with
  | .closed reason =>
      .error ⟨1, ["c Error opening " ++ options.file.getD "" ++ ": " ++ reason]⟩
  | .unreadable => loaded .unreadable
  | .content bytes => loaded (.ofBytes bytes)

/-- The number in the name of a variable from a formula file. -/
def numberOfName? (name : String) : Option Int :=
  match name.toList with
  | 'v' :: 'a' :: 'r' :: numeral => Text.signedWord? numeral
  | _ => none

/-- What a valuation says of one variable: a literal, or a line of its own. -/
def showVariable (name : String) (value : Option Value) : Int ⊕ String :=
  match numberOfName? name, value with
  | some number, some (.boolean truth) => .inl (if truth then number else -number)
  | _, some value => .inr ("v " ++ name ++ "=" ++ value.render)
  | _, none => .inr ("v " ++ name ++ "=?")

/-- A model: variables that are not numbered first, then all literals in a line
ended by zero. -/
def modelLines (valuation : List (String × Option Value)) : List String :=
  let shown := valuation.map fun (name, value) => showVariable name value
  let literals := shown.filterMap Sum.getLeft?
  let others := shown.filterMap Sum.getRight?
  if literals.isEmpty then others
  else others ++ ["v " ++ String.intercalate " " (literals.map toString) ++ " 0"]

/-- Seconds with three decimal places. -/
def showSeconds (milliseconds : Nat) : String :=
  let places := Nat.toDigits 10 (milliseconds % 1000)
  Nat.repr (milliseconds / 1000) ++ "." ++
    String.ofList (List.replicate (3 - places.length) '0' ++ places) ++ "s"

def statisticLines (counters : Counters) : List String :=
  [ "c Variables: " ++ Nat.repr counters.addedVariables,
    "c Clauses: " ++ Nat.repr counters.inputClauses,
    "c Learned clauses: " ++ Nat.repr counters.learnedClauses,
    "c Decisions: " ++ Nat.repr counters.decisions,
    "c Conflicts: " ++ Nat.repr counters.conflicts,
    "c Clausal propagations: " ++ Nat.repr counters.clausalPropagations,
    "c Semantic propagations: " ++ Nat.repr counters.semanticPropagations,
    "c Semantic evaluations: " ++ Nat.repr counters.semanticEvaluations,
    "c Iterations: " ++ Nat.repr counters.iterations,
    "c Time: " ++ showSeconds counters.time ]

def exitCodeOf : Report → Nat
  | .satisfiable => 10
  | .unsatisfiable => 20
  | .timeUp | .unknown => 0

/-- What is shown after a search. -/
def conclude (options : Options) (report : Report) (solver : Solver Empty) : Transcript :=
  let model :=
    if options.model && report == .satisfiable then modelLines solver.valuation else []
  let stats := if options.stats then statisticLines solver.counters else []
  ⟨exitCodeOf report, ["s " ++ report.render] ++ model ++ stats⟩

/-- The end of a search, with an answer or a fault. -/
def concludeResult (options : Options) : EStateM.Result Fault (Solver Empty) Report → Transcript
  | .ok report solver => conclude options report solver
  | .error fault _ => ofFault "c Context error: " fault

/-- The name and version of the command. -/
def versionLine : String := "otter_mcsat 0.1.0"

/-- How the command is used. -/
def usageLines : List String :=
  [ "Determines whether a formula is satisfiable or unsatisfiable",
    "",
    "Usage: otter_mcsat [OPTIONS] [FORMULA_FILE]",
    "",
    "Arguments:",
    "  [FORMULA_FILE]  The DIMACS form CNF file to parse, if absent the formula is read from stdin",
    "",
    "Options:",
    "  -d, --debug <DEBUG>            The level of logs, from 0 (off) to 5 (trace) [default: 0]",
    "      --no-learning              Do not watch clauses derived during conflict analysis",
    "  -t, --time-limit <TIME_LIMIT>  Time limit for the solve, in seconds",
    "  -m, --model                    Display a satisfying valuation, if possible",
    "  -s, --stats                    Display stats on completion",
    "  -h, --help                     Print help",
    "  -V, --version                  Print version" ]

/-- Ends a run that does not read a formula, and otherwise gives its options. -/
def Request.settle : Request → Except Transcript Options
  | .solve options => .ok options
  | .showVersion => .error ⟨0, [versionLine]⟩
  | .showHelp => .error ⟨0, usageLines⟩
  | .refused => .error ⟨2, []⟩

/-- A whole run, on a clock that stands still. -/
def run (fuel : Nat) (arguments : List String) (standardInput : Source)
    (file : String → Source) : Transcript :=
  match (Request.ofArguments arguments).settle with
  | .error transcript => transcript
  | .ok options =>
      let source :=
        match options.file with
        | some path => file path
        | none => standardInput
      match loadSource options source with
      | .error transcript => transcript
      | .ok solver => concludeResult options ((Solver.solve fuel).run solver)

end ModelSearch.Command
