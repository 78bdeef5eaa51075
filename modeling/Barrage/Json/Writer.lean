import Barrage.Json.Number

/-!
Writing JSON values.

`write` leaves out all space; `pretty` puts every item and member on a line of its own, indented by
two spaces a level, and leaves empty containers on one line. Members are written in the order in
which they stand. A string escapes the quote, the backslash and the control characters below
U+0020, the five with a letter of their own by that letter, the others by four lower-case digits.
-/

namespace Barrage.Json

/-- One character inside quotes. -/
def escape (c : Char) : List Char :=
  if c = '"' then ['\\', '"']
  else if c = '\\' then ['\\', '\\']
  else if c.toNat < 0x20 then
    if c = '\x08' then ['\\', 'b']
    else if c = '\x0c' then ['\\', 'f']
    else if c = '\n' then ['\\', 'n']
    else if c = '\r' then ['\\', 'r']
    else if c = '\t' then ['\\', 't']
    else ['\\', 'u', '0', '0', Nat.digitChar (c.toNat / 16), Nat.digitChar (c.toNat % 16)]
  else [c]

/-- A string in quotes. -/
def quote (s : String) : List Char := '"' :: s.toList.flatMap escape ++ ['"']

mutual
/-- A value without space. -/
def Value.write : Value → List Char
  | .null => ['n', 'u', 'l', 'l']
  | .bool true => ['t', 'r', 'u', 'e']
  | .bool false => ['f', 'a', 'l', 's', 'e']
  | .number n => n.write
  | .string s => quote s
  | .array items => '[' :: Value.writeItems items
  | .object members => '{' :: Value.writeMembers members
/-- The items of an array with the closing bracket. -/
def Value.writeItems : List Value → List Char
  | [] => [']']
  | [v] => Value.write v ++ [']']
  | v :: vs => Value.write v ++ ',' :: Value.writeItems vs
/-- The members of an object with the closing brace. -/
def Value.writeMembers : List (String × Value) → List Char
  | [] => ['}']
  | [(k, v)] => quote k ++ ':' :: Value.write v ++ ['}']
  | (k, v) :: ms => quote k ++ ':' :: Value.write v ++ ',' :: Value.writeMembers ms
end

/-- A new line and the indentation of a level. -/
def newLine (level : Nat) : List Char := '\n' :: List.replicate (2 * level) ' '

mutual
/-- A value laid out over lines, at an indentation level. -/
def Value.lines (level : Nat) : Value → List Char
  | .array [] => ['[', ']']
  | .object [] => ['{', '}']
  | .array items => '[' :: Value.itemLines level items
  | .object members => '{' :: Value.memberLines level members
  | .null => ['n', 'u', 'l', 'l']
  | .bool true => ['t', 'r', 'u', 'e']
  | .bool false => ['f', 'a', 'l', 's', 'e']
  | .number n => n.write
  | .string s => quote s
/-- The items of an array with the closing bracket. -/
def Value.itemLines (level : Nat) : List Value → List Char
  | [] => newLine level ++ [']']
  | [v] => newLine (level + 1) ++ Value.lines (level + 1) v ++ newLine level ++ [']']
  | v :: vs => newLine (level + 1) ++ Value.lines (level + 1) v ++ ',' :: Value.itemLines level vs
/-- The members of an object with the closing brace. -/
def Value.memberLines (level : Nat) : List (String × Value) → List Char
  | [] => newLine level ++ ['}']
  | [(k, v)] =>
    newLine (level + 1) ++ quote k ++ ':' :: ' ' :: Value.lines (level + 1) v ++ newLine level ++ ['}']
  | (k, v) :: ms =>
    newLine (level + 1) ++ quote k ++ ':' :: ' ' :: Value.lines (level + 1) v ++
      ',' :: Value.memberLines level ms
end

/-- The text of a value without space. -/
def Value.render (v : Value) : String := String.ofList v.write

/-- The text of a value laid out over lines. -/
def Value.pretty (v : Value) : String := String.ofList (v.lines 0)

end Barrage.Json
