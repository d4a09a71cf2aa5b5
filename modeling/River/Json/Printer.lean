import River.Json.Value

/-! The text of a JSON value: on one line, or a line for each item and member. -/
namespace River.Json

inductive Layout where
  | compact
  | indented
  deriving DecidableEq

def Layout.lineBreak : Layout → Nat → List Char
  | .compact, _ => []
  | .indented, depth => '\n' :: List.replicate (2 * depth) ' '

def Layout.colon : Layout → List Char
  | .compact => [':']
  | .indented => [':', ' ']

def hexDigit (n : Nat) : Char := Nat.digitChar n

/-- Only what a string cannot hold raw is escaped, by a letter if there is one. -/
def escapeChar (c : Char) : List Char :=
  if c = '"' then ['\\', '"']
  else if c = '\\' then ['\\', '\\']
  else if c = '\x08' then ['\\', 'b']
  else if c = '\x0c' then ['\\', 'f']
  else if c = '\n' then ['\\', 'n']
  else if c = '\r' then ['\\', 'r']
  else if c = '\t' then ['\\', 't']
  else if c.toNat < 0x20 then
    ['\\', 'u', '0', '0', hexDigit (c.toNat / 16), hexDigit (c.toNat % 16)]
  else [c]

def stringText (s : String) : List Char := '"' :: (s.toList.flatMap escapeChar ++ ['"'])

mutual

/-- Writes a value in front of the text that follows it. -/
def print (layout : Layout) (depth : Nat) : Json → List Char → List Char
  | null, rest => 'n' :: 'u' :: 'l' :: 'l' :: rest
  | bool true, rest => 't' :: 'r' :: 'u' :: 'e' :: rest
  | bool false, rest => 'f' :: 'a' :: 'l' :: 's' :: 'e' :: rest
  | number n, rest => Nat.toDigits 10 n ++ rest
  | string s, rest => stringText s ++ rest
  | array [], rest => '[' :: ']' :: rest
  | array (v :: vs), rest =>
    '[' :: (layout.lineBreak (depth + 1) ++ print layout (depth + 1) v
      (printItems layout (depth + 1) vs (layout.lineBreak depth ++ ']' :: rest)))
  | object [], rest => '\x7b' :: '\x7d' :: rest
  | object (m :: ms), rest =>
    '\x7b' :: (layout.lineBreak (depth + 1) ++ printMember layout (depth + 1) m
      (printMembers layout (depth + 1) ms (layout.lineBreak depth ++ '\x7d' :: rest)))

def printItems (layout : Layout) (depth : Nat) : List Json → List Char → List Char
  | [], rest => rest
  | v :: vs, rest =>
    ',' :: (layout.lineBreak depth ++ print layout depth v (printItems layout depth vs rest))

def printMembers (layout : Layout) (depth : Nat) : List (String × Json) → List Char → List Char
  | [], rest => rest
  | m :: ms, rest =>
    ',' :: (layout.lineBreak depth ++ printMember layout depth m
      (printMembers layout depth ms rest))

def printMember (layout : Layout) (depth : Nat) : String × Json → List Char → List Char
  | (k, v), rest => stringText k ++ (layout.colon ++ print layout depth v rest)

end

def compact (v : Json) : String := String.ofList (v.print .compact 0 [])
def pretty (v : Json) : String := String.ofList (v.print .indented 0 [])

end River.Json
