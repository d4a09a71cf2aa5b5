import River.Json.Numeral
import River.Json.Scan

/-! Values that nobody asks for are checked for their syntax only, to any depth. -/
namespace River.Json

inductive Bracket where
  | square
  | curly
  deriving DecidableEq

namespace Bracket

def closing : Bracket → Char
  | square => ']'
  | curly => '\x7d'

def atEnd : Bracket → Cause
  | square => .endInList
  | curly => .endInObject

def expectedComma : Bracket → Cause
  | square => .expectedListComma
  | curly => .expectedObjectComma

end Bracket

/-- After a value: brackets are closed until a comma asks for another value in the innermost one
that is still open. -/
def unwind : List Bracket → List Char → Except Failure (List Bracket × List Char)
  | [], text => .ok ([], text)
  | b :: outer, text =>
    match skipBlanks text with
    | [] => failHere b.atEnd []
    | c :: rest =>
      if c = ',' then .ok (b :: outer, rest)
      else if c = b.closing then unwind outer rest
      else failAfterNext b.expectedComma (c :: rest)

def enter (b : Bracket) (outer : List Bracket) (text : List Char) :
    Except Failure (List Bracket × List Char) :=
  match skipBlanks text with
  | [] => failHere b.atEnd []
  | c :: rest => if c = b.closing then unwind outer rest else .ok (b :: outer, c :: rest)

def colon (text : List Char) : Except Failure (List Char) :=
  match skipBlanks text with
  | [] => failHere .endInObject []
  | c :: rest => if c = ':' then .ok rest else failAfterNext .expectedColon (c :: rest)

def skipKey (text : List Char) : Except Failure (List Char) :=
  match skipBlanks text with
  | [] => failHere .endInObject []
  | c :: rest =>
    if c = '"' then do
      let rest ← skipString rest
      colon rest
    else failAfterNext .keyNotString (c :: rest)

/-- A value that is no array and no object; blanks before it are skipped. -/
def skipScalar : List Char → Except Failure (List Char)
  | [] => failHere .endInValue []
  | 'n' :: rest => word ['u', 'l', 'l'] rest
  | 't' :: rest => word ['r', 'u', 'e'] rest
  | 'f' :: rest => word ['a', 'l', 's', 'e'] rest
  | '"' :: rest => skipString rest
  | c :: rest =>
    if c = '-' ∨ c.isDigit = true then skipNumber (c :: rest)
    else failAfterNext .expectedValue (c :: rest)

/-- The start of a value in the open brackets: a whole scalar, or a bracket that opens. -/
def skipStart (opened : List Bracket) (text : List Char) :
    Except Failure (List Bracket × List Char) :=
  match skipBlanks text with
  | '[' :: rest => enter .square opened rest
  | '\x7b' :: rest => enter .curly opened rest
  | text => do
    let rest ← skipScalar text
    unwind opened rest

/-- A value in the open brackets, and all that follows until they are closed. -/
def skipWithin : (clock : List Char) → List Bracket → List Char → Except Failure (List Char)
  | [], _, _ => failHere .endInValue []
  | _ :: clock, opened, text => do
    match ← skipStart opened text with
    | ([], rest) => return rest
    | (.square :: outer, rest) => skipWithin clock (.square :: outer) rest
    | (.curly :: outer, rest) => do
      let rest ← skipKey rest
      skipWithin clock (.curly :: outer) rest

def skipValue (text : List Char) : Except Failure (List Char) := skipWithin text [] text

end River.Json
