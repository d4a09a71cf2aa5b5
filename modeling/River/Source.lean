import River.Report
import River.Span
import River.Text.Lines

/-! The line table of a source text, which turns positions into lines and columns. The text is not
kept: two texts with the same length and the same line breaks have the same table. -/
namespace River

/-- Lines and columns count from one, columns in bytes. -/
structure Location where
  file : String
  line : Nat
  column : Nat
  deriving DecidableEq

def Location.text (l : Location) : String :=
  (if l.file.isEmpty then "" else l.file ++ ":") ++ l.line.repr ++ ":" ++ l.column.repr

structure Stretch where
  start : Location
  stop : Location
  deriving DecidableEq

/-- One location is written once. -/
def Stretch.text (s : Stretch) : String :=
  if s.start = s.stop then s.start.text
  else s.start.text ++ "-" ++ s.stop.line.repr ++ ":" ++ s.stop.column.repr

inductive Unlocated where
  | unplaced
  | beyond (offset : Nat) (file : String) (size : Nat)
  deriving DecidableEq

def Unlocated.report : Unlocated → Report
  | .unplaced =>
    (Report.mk .invalidPosition "node has no position" none none).withHelp
      "synthesized nodes and empty containers carry no source location"
  | .beyond offset file size =>
    (Report.mk .invalidPosition ("offset " ++ offset.repr ++ " is out of range") none none).withNote
      ("'" ++ file ++ "' is " ++ size.repr ++ " bytes long")

/-- The first line starts at zero, the others at `laterStarts`. -/
structure SourceFile where
  name : String
  laterStarts : List Nat
  size : Nat
  deriving DecidableEq

namespace SourceFile

def index (name text : String) : SourceFile :=
  ⟨name, Text.startsAfterBreaks 0 (Text.utf8 text.toList), text.utf8ByteSize⟩

def lineStarts (f : SourceFile) : List Nat := 0 :: f.laterStarts

def lineCount (f : SourceFile) : Nat := f.lineStarts.length

/-- How many of the later lines start no later than the offset. -/
def laterLines (f : SourceFile) (offset : Nat) : Nat :=
  (f.laterStarts.takeWhile (· ≤ offset)).length

theorem laterLines_lt_lineCount (f : SourceFile) (offset : Nat) :
    f.laterLines offset < f.lineStarts.length :=
  Nat.lt_succ_of_le (List.takeWhile_sublist _).length_le

def lineStart (f : SourceFile) (offset : Nat) : Nat :=
  f.lineStarts.get ⟨f.laterLines offset, f.laterLines_lt_lineCount offset⟩

/-- The offset just past the last byte has a location too. -/
def locate (f : SourceFile) : Pos → Except Unlocated Location
  | .unplaced => .error .unplaced
  | .byte offset _ =>
    if f.size < offset then .error (.beyond offset f.name f.size)
    else .ok ⟨f.name, f.laterLines offset + 1, offset - f.lineStart offset + 1⟩

/-- A span is located from its start to its end; what the start fails with comes first. -/
def stretch (f : SourceFile) (s : Span) : Except Unlocated Stretch := do
  let start ← f.locate s.first
  let stop ← f.locate s.last
  return ⟨start, stop⟩

@[simp] theorem locate_unplaced (f : SourceFile) : f.locate .unplaced = .error .unplaced := rfl

theorem locate_byte (f : SourceFile) (offset : Nat) (bound) : f.locate (.byte offset bound) =
    if f.size < offset then .error (.beyond offset f.name f.size)
    else .ok ⟨f.name, f.laterLines offset + 1, offset - f.lineStart offset + 1⟩ := rfl

end SourceFile
end River
