/-! Terminal colors. A painted text stands between a sequence that sets its look and one that ends
it. -/
namespace River.Outline

inductive Paint where
  | heading
  | span
  deriving DecidableEq

/-- Headings are bold and cyan, spans dim. -/
def Paint.code : Paint → List Char
  | .heading => ['\x1b', '[', '1', ';', '3', '6', 'm']
  | .span => ['\x1b', '[', '2', 'm']

def Paint.stop : List Char := ['\x1b', '[', '0', 'm']

def Paint.apply (p : Paint) (on : Bool) (text : List Char) : List Char :=
  if on then p.code ++ text ++ stop else text

/-- Deletes all three sequences in one pass from the left. -/
def Paint.strip : List Char → List Char
  | [] => []
  | '\x1b' :: '[' :: '0' :: 'm' :: rest => strip rest
  | '\x1b' :: '[' :: '2' :: 'm' :: rest => strip rest
  | '\x1b' :: '[' :: '1' :: ';' :: '3' :: '6' :: 'm' :: rest => strip rest
  | c :: rest => c :: strip rest

end River.Outline
