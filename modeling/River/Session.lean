import River.Exchange
import River.Outline
import River.Source

/-! A run of the library with tracing. Tracing is on if the environment asks for it, and from where it
is switched on; it is never switched off, and changes no result. -/
namespace River.Session

/-- Whether tracing is on, as far as is known: the environment is asked once, when it first matters. -/
structure Tracing where
  asked : Bool
  on : Bool

namespace Tracing

def start : Tracing := ⟨false, false⟩

/-- Asks the environment, unless that has been done. It switches tracing on or leaves it as it is.
The environment wants tracing if it has a variable `RIVER_AST_DEBUG` that reads as text, the empty
text included. A value that is not Unicode is no text, so it counts as none. -/
def settle (wanted : Bool) (t : Tracing) : Tracing :=
  if t.asked then t else ⟨true, t.on || wanted⟩

def switchOn (t : Tracing) : Tracing := { t with on := true }

end Tracing

inductive Step where
  | isTracing
  | startTracing
  | index (name text : String)
  | outline (n : Node) (style : Outline.Style) (colorAllowed : Bool)
  | toJson (f : File)

inductive Result where
  | none
  | flag (b : Bool)
  | source (f : SourceFile)
  | text (s : String)
  deriving DecidableEq

def Step.result (tracing : Bool) : Step → Result
  | .isTracing => .flag tracing
  | .startTracing => .none
  | .index name text => .source (SourceFile.index name text)
  | .outline n style colorAllowed => .text (Outline.text style colorAllowed n)
  | .toJson f => .text f.toJson

def Step.trace? : Step → Option String
  | .isTracing => .none
  | .startTracing => .none
  | .index name text =>
    some ("source: indexed " ++ (SourceFile.index name text).lineCount.repr ++ " line(s) in '"
      ++ name ++ "' (" ++ text.utf8ByteSize.repr ++ " bytes)")
  | .outline n style colorAllowed =>
    some ("dump: rendered " ++ (Outline.nodeCount style colorAllowed n).repr ++ " node(s)")
  | .toJson f =>
    some ("dump: serialized '" ++ f.name ++ "' (" ++ f.toJson.utf8ByteSize.repr ++ " bytes)")

def Step.startsTracing : Step → Bool
  | .startTracing => true
  | _ => false

/-- Performs a step: what it answers, what it reports, and the tracing after it. Switching tracing on
does not ask the environment; all other steps do, to see whether they report. -/
def Step.perform (wanted : Bool) (t : Tracing) : Step → Result × Option String × Tracing
  | .startTracing => (.none, none, t.switchOn)
  | step =>
    let t := t.settle wanted
    (step.result t.on, if t.on then step.trace? else none, t)

def runFrom (wanted : Bool) (t : Tracing) : List Step → List Result × List String
  | [] => ([], [])
  | step :: steps =>
    let (result, trace?, t) := step.perform wanted t
    let (results, traces) := runFrom wanted t steps
    (result :: results, trace?.toList ++ traces)

/-- A run from its start. The environment wants tracing or does not, as in `Tracing.settle`, and
does not change during the run. -/
def run (wanted : Bool) (steps : List Step) : List Result × List String :=
  runFrom wanted .start steps

/-- Every trace is a line. -/
def traceText (traces : List String) : String :=
  String.join (traces.map (· ++ "\n"))

end River.Session
