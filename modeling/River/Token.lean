/-! Kinds of lexical tokens, as the scanner names them. -/
namespace River

inductive Token where
  | illegal | eof | comment
  | ident | number | float | string | bool | null
  | or | and | not | assign | eq | neq | lt | lte | gt | gte
  | add | sub | mul | div | mod | pow
  | lcurly | rcurly | lparen | rparen | lbrack | rbrack | comma | dot
  | terminator
  deriving DecidableEq

namespace Token

def all : List Token := [
  illegal, eof, comment,
  ident, number, float, string, bool, null,
  or, and, not, assign, eq, neq, lt, lte, gt, gte,
  add, sub, mul, div, mod, pow,
  lcurly, rcurly, lparen, rparen, lbrack, rbrack, comma, dot,
  terminator]

theorem mem_all (t : Token) : t ∈ all := by cases t <;> decide

/-- The name under which trees are exchanged. -/
def name : Token → String
  | illegal => "Illegal" | eof => "Eof" | comment => "Comment"
  | ident => "Ident" | number => "Number" | float => "Float" | string => "String"
  | bool => "Bool" | null => "Null"
  | or => "Or" | and => "And" | not => "Not" | assign => "Assign"
  | eq => "Eq" | neq => "Neq" | lt => "Lt" | lte => "Lte" | gt => "Gt" | gte => "Gte"
  | add => "Add" | sub => "Sub" | mul => "Mul" | div => "Div" | mod => "Mod" | pow => "Pow"
  | lcurly => "LCurly" | rcurly => "RCurly" | lparen => "LParen" | rparen => "RParen"
  | lbrack => "LBrack" | rbrack => "RBrack" | comma => "Comma" | dot => "Dot"
  | terminator => "Terminator"

def ofName? (name : String) : Option Token := all.find? (·.name == name)

/-- An operator or a delimiter as it is written; a class of tokens by its name in capitals. -/
def symbol : Token → String
  | illegal => "ILLEGAL" | eof => "EOF" | comment => "COMMENT"
  | ident => "IDENT" | number => "NUMBER" | float => "FLOAT" | string => "STRING"
  | bool => "BOOL" | null => "NULL"
  | or => "||" | and => "&&" | not => "!" | assign => "="
  | eq => "==" | neq => "!=" | lt => "<" | lte => "<=" | gt => ">" | gte => ">="
  | add => "+" | sub => "-" | mul => "*" | div => "/" | mod => "%" | pow => "^"
  | lcurly => "\x7b" | rcurly => "\x7d" | lparen => "(" | rparen => ")"
  | lbrack => "[" | rbrack => "]" | comma => "," | dot => "."
  | terminator => "TERMINATOR"

/-- Whether a literal can be of this kind. -/
def isLiteral : Token → Bool
  | number | float | string | bool | null => true
  | _ => false

def isOperator : Token → Bool
  | or | and | not | assign | eq | neq | lt | lte | gt | gte
  | add | sub | mul | div | mod | pow => true
  | _ => false

/-- What is no binary operator binds least. -/
def lowest : Nat := 0

def precedence : Token → Nat
  | or => 1
  | and => 2
  | eq | neq | lt | lte | gt | gte => 3
  | add | sub => 4
  | mul | div | mod => 5
  | pow => 6
  | _ => lowest

end Token
end River
