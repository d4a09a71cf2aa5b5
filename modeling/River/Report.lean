/-! What is told about a failure: its kind, a message, and optional advice. -/
namespace River

/-- What can fail: finding a position in a text, and exchanging a tree. -/
inductive Fault where
  | invalidPosition
  | serialization
  deriving DecidableEq

def Fault.text : Fault → String
  | .invalidPosition => "invalid position"
  | .serialization => "serialization error"

structure Report where
  fault : Fault
  message : String
  note : Option String := none
  help : Option String := none
  deriving DecidableEq

namespace Report

def withNote (r : Report) (note : String) : Report := { r with note := some note }
def withHelp (r : Report) (help : String) : Report := { r with help := some help }
def withoutAdvice (r : Report) : Report := { r with note := none, help := none }

/-- The note and the help follow on lines of their own. -/
def text (r : Report) : String :=
  r.fault.text ++ ": " ++ r.message
    ++ (match r.note with | some note => "\nnote: " ++ note | none => "")
    ++ (match r.help with | some help => "\nhelp: " ++ help | none => "")

end Report
end River
