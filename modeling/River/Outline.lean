import River.Outline.Entry
import River.Outline.Paint

/-! An outline of a tree: a line for each entry, indented by its depth, with its heading, its detail
and its span. -/
namespace River.Outline

/-- What is shown, and how deep a level is indented. -/
structure Style where
  positions : Bool := true
  comments : Bool := true
  color : Bool := false
  indent : Nat := 2
  deriving DecidableEq

instance : Inhabited Style := ⟨{}⟩

/-- A detail that is empty takes no space. -/
def detailText (detail : String) : List Char :=
  if detail.isEmpty then [] else ' ' :: detail.toList

def spanText (painted : Bool) (s : Span) : List Char :=
  ' ' :: Paint.span.apply painted ('[' :: (s.text.toList ++ [']']))

def lineText (style : Style) (painted : Bool) (e : Entry) : List Char :=
  List.replicate (e.depth * style.indent) ' '
    ++ (Paint.heading.apply painted e.item.heading.toList
    ++ (detailText e.item.detail
    ++ ((if style.positions then e.item.span?.elim [] (spanText painted) else [])
    ++ ['\n'])))

/-- The text written so far, and the number of nodes in it. -/
structure Printer where
  buffer : String
  nodes : Nat

namespace Printer

def start : Printer := ⟨"", 0⟩

def count (p : Printer) : Printer := { p with nodes := p.nodes + 1 }

def write (style : Style) (painted : Bool) (e : Entry) (p : Printer) : Printer :=
  { p with buffer := p.buffer ++ String.ofList (lineText style painted e) }

/-- Writes a node and what is below it. An object is taken member by member, since a heading stands
before each name; of the children of other nodes groups of comments can be left out. -/
def writeNode (style : Style) (painted : Bool) (depth : Nat) (n : Node) (p : Printer) : Printer :=
  let p := p.count.write style painted (nodeAt depth n)
  match n with
  | .expr (.object fields _ _) =>
    fields.attach.foldl (fun p f =>
      let p := p.write style painted ⟨depth + 1, .field f.val⟩
      let p := writeNode style painted (depth + 2) (.ident f.val.name) p
      writeNode style painted (depth + 2) (.expr f.val.value) p) p
  | n =>
    n.children.attach.foldl (fun p c =>
      if c.val.kind = .commentGroup && !style.comments then p
      else writeNode style painted (depth + 1) c.val p) p
termination_by sizeOf n
decreasing_by
  · exact Node.sizeOf_child (List.mem_flatMap.2 ⟨f.val, f.property, by simp⟩)
  · exact Node.sizeOf_child (List.mem_flatMap.2 ⟨f.val, f.property, by simp⟩)
  · exact Node.sizeOf_child c.property

end Printer

/-- An outline is painted if its style asks for it and the terminal allows it. -/
def printed (style : Style) (colorAllowed : Bool) (n : Node) : Printer :=
  Printer.start.writeNode style (style.color && colorAllowed) 0 n

def text (style : Style) (colorAllowed : Bool) (n : Node) : String :=
  (printed style colorAllowed n).buffer

/-- How many nodes an outline shows, as its printer counts them. -/
def nodeCount (style : Style) (colorAllowed : Bool) (n : Node) : Nat :=
  (printed style colorAllowed n).nodes

def standard (n : Node) : String := text {} true n

end River.Outline
