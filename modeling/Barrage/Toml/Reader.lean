import Barrage.Toml.Document
import Barrage.Toml.Scalar

/-!
Reading TOML texts.

A text is a row of lines: headers, assignments, comments and empty lines, after an optional byte
order mark. Arrays may run over lines and end in a comma; inline tables do neither. Values are nested
at most 79 deep, and a key has at most 79 parts.
-/

namespace Barrage.Toml

/-- The bound that nesting of values and parts of a key stay below. -/
def nestingBound : Nat := 80

/-- The rest after a comment, which ends before the line end. -/
def comment? : List Char → Option (List Char)
  | '#' :: rest => some (rest.dropWhile isPlain)
  | _ => none

/-- The rest after blanks, a comment and the line end or the end of the text. -/
def finishLine? (cs : List Char) : Option (List Char) :=
  let cs := skipBlanks cs
  let cs := (comment? cs).getD cs
  if cs.isEmpty then some [] else lineEnd? cs

/-- Drops blanks, line ends and whole-line comments between the items of an array. -/
def skipLines? : Nat → List Char → Option (List Char)
  | 0, _ => none
  | fuel + 1, cs =>
    let cs := skipBlanks cs
    match cs with
    | '#' :: _ => do skipLines? fuel (← lineEnd? ((comment? cs).getD []))
    | c :: _ =>
      if c = '\n' ∨ c = '\r' then do skipLines? fuel (← lineEnd? cs) else some cs
    | [] => some []

/-- The characters of a bare key. -/
def isKeyChar (c : Char) : Bool := c.isAlphanum || c == '_' || c == '-'

/-- One part of a key: bare or in quotes on one line. -/
def keyPart? (cs : List Char) : Option (String × List Char) :=
  match cs with
  | '"' :: rest => basicRest? (rest.length + 1) [] rest
  | '\'' :: rest => literalRest? rest
  | cs =>
    let part := cs.takeWhile isKeyChar
    if part.isEmpty then none else some (String.ofList part, cs.drop part.length)

/-- The parts of a key, with blanks around them, in reverse in front of `acc`. -/
def keyParts? : (fuel : Nat) → (acc : List String) → List Char → Option (List String × List Char)
  | 0, _, _ => none
  | fuel + 1, acc, cs => do
    let (part, rest) ← keyPart? (skipBlanks cs)
    match skipBlanks rest with
    | '.' :: rest => keyParts? fuel (part :: acc) rest
    | rest => some (part :: acc, rest)

/-- A key: the path to its table and its last part. -/
def key? (cs : List Char) : Option ((List String × String) × List Char) :=
  match keyParts? (cs.length + 1) [] cs with
  | some (last :: path, rest) =>
    if path.length + 1 < nestingBound then some ((path.reverse, last), rest) else none
  | _ => none

mutual
/-- A value at nesting `depth`. -/
def value? : (fuel depth : Nat) → List Char → Option (Value × List Char)
  | 0, _, _ => none
  | fuel + 1, depth, cs =>
    match cs with
    | '[' :: rest =>
      if depth + 1 < nestingBound then do
        items? fuel (depth + 1) [] (← skipLines? (rest.length + 1) rest)
      else none
    | '{' :: rest =>
      if depth + 1 < nestingBound then
        match skipBlanks rest with
        | '}' :: rest => some (.table [], rest)
        | rest => assignments? fuel (depth + 1) [] rest
      else none
    | cs => scalar? cs
/-- The items of an array up to its closing bracket, those so far reversed in `acc`. -/
def items? : (fuel depth : Nat) → List Value → List Char → Option (Value × List Char)
  | 0, _, _, _ => none
  | fuel + 1, depth, acc, cs =>
    match cs with
    | ']' :: rest => some (.array acc.reverse, rest)
    | cs => do
      let (v, rest) ← value? fuel depth cs
      match ← skipLines? (rest.length + 1) rest with
      | ',' :: rest => items? fuel depth (v :: acc) (← skipLines? (rest.length + 1) rest)
      | ']' :: rest => some (.array (v :: acc).reverse, rest)
      | _ => none
/-- The assignments of an inline table up to its closing brace, those so far reversed in `acc`. -/
def assignments? : (fuel depth : Nat) → List (List String × String × Value) → List Char →
    Option (Value × List Char)
  | 0, _, _, _ => none
  | fuel + 1, depth, acc, cs => do
    let ((path, name), rest) ← key? cs
    match rest with
    | '=' :: rest =>
      let (v, rest) ← value? fuel depth (skipBlanks rest)
      let acc := (path, name, v) :: acc
      match skipBlanks rest with
      | ',' :: rest => assignments? fuel depth acc rest
      | '}' :: rest => return (.table (← ofAssignments? acc.reverse), rest)
      | _ => none
    | _ => none
end

/-- A header or an assignment, with the rest of its line. -/
def statement? (cs : List Char) : Option (Statement × List Char) :=
  match cs with
  | '[' :: '[' :: rest => do
    let ((path, name), rest) ← key? rest
    match rest with
    | ']' :: ']' :: rest => return (.append path name, ← finishLine? rest)
    | _ => none
  | '[' :: rest => do
    let ((path, name), rest) ← key? rest
    match rest with
    | ']' :: rest => return (.open path name, ← finishLine? rest)
    | _ => none
  | cs => do
    let ((path, name), rest) ← key? cs
    match rest with
    | '=' :: rest =>
      let (v, rest) ← value? (2 * rest.length + 2) 0 (skipBlanks rest)
      return (.assign path name v, ← finishLine? rest)
    | _ => none

/-- The statements of a text, those so far reversed in `acc`. -/
def statements? : (fuel : Nat) → List Statement → List Char → Option (List Statement)
  | 0, _, _ => none
  | fuel + 1, acc, cs =>
    match skipBlanks cs with
    | [] => some acc.reverse
    | c :: rest =>
      if c = '#' ∨ c = '\n' ∨ c = '\r' then do statements? fuel acc (← finishLine? (c :: rest))
      else do
        let (s, rest) ← statement? (c :: rest)
        statements? fuel (s :: acc) rest

/-- Drops a byte order mark. -/
def dropMark : List Char → List Char
  | c :: rest => if c.toNat = 0xFEFF then rest else c :: rest
  | [] => []

/-- Reads a text as a table. -/
def parse? (text : String) : Option Value := do
  let cs := dropMark text.toList
  let statements ← statements? (cs.length + 1) [] cs
  let members ← ofStatements? statements
  return .table members

end Barrage.Toml
