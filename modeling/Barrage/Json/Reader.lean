import Barrage.Json.Number
import Barrage.Text.Hex

/-!
Reading JSON texts.

The grammar is that of the standard: four blank characters, no trailing commas, no comments, strings
without raw control characters, numbers without leading zeros. `read?` reads a whole text into a
`Tree` with at most `limit` nested containers. A surrogate escape has to be followed by its partner
for the string to denote a text.
-/

namespace Barrage.Json

/-- The four characters that may stand between tokens. -/
def isSpace (c : Char) : Bool := c == ' ' || c == '\t' || c == '\n' || c == '\r'

/-- Drops the space in front. -/
def skipSpace (cs : List Char) : List Char := cs.dropWhile isSpace

/-- The value of four hexadecimal digits. -/
def hex4? (a b c d : Char) : Option Nat := do
  let w ← Text.Hex.value? a
  let x ← Text.Hex.value? b
  let y ← Text.Hex.value? c
  let z ← Text.Hex.value? d
  return ((w * 16 + x) * 16 + y) * 16 + z

/-- The character of a one-letter escape. -/
def escaped? : Char → Option Char
  | '"' => some '"'
  | '\\' => some '\\'
  | '/' => some '/'
  | 'b' => some '\x08'
  | 'f' => some '\x0c'
  | 'n' => some '\n'
  | 'r' => some '\r'
  | 't' => some '\t'
  | _ => none

/-- The code point of a surrogate pair. -/
def pairValue (high low : Nat) : Nat := (high - 0xD800) * 0x400 + (low - 0xDC00) + 0x10000

/-- The low surrogate that an escape at the head of a text denotes. -/
def partner? : List Char → Option Nat
  | '\\' :: 'u' :: w :: x :: y :: z :: _ =>
    (hex4? w x y z).filter fun n => 0xDC00 ≤ n ∧ n < 0xE000
  | _ => none

/-- The rest of a string after its opening quote: its characters, or none when it holds an unpaired
surrogate, and the text after the closing quote. `acc` holds the characters so far in reverse and
`paired` tells that every surrogate so far had its partner. -/
def stringRest? (acc : List Char) (paired : Bool) :
    List Char → Option (Option (List Char) × List Char)
  | [] => none
  | c :: rest =>
    if c = '"' then some (if paired then some acc.reverse else none, rest)
    else if c = '\\' then
      match rest with
      | [] => none
      | e :: rest =>
        if e = 'u' then
          match rest with
          | w :: x :: y :: z :: rest =>
            match hex4? w x y z with
            | none => none
            | some n =>
              if n < 0xD800 ∨ 0xE000 ≤ n then stringRest? (Char.ofNat n :: acc) paired rest
              else if 0xDC00 ≤ n then stringRest? acc false rest
              else
                match partner? rest with
                | some m =>
                  match rest with
                  | _ :: _ :: _ :: _ :: _ :: _ :: rest =>
                    stringRest? (Char.ofNat (pairValue n m) :: acc) paired rest
                  | _ => none
                | none => stringRest? acc false rest
          | _ => none
        else
          match escaped? e with
          | none => none
          | some d => stringRest? (d :: acc) paired rest
    else if c.toNat < 0x20 then none
    else stringRest? (c :: acc) paired rest

mutual
/-- The value at the head of a text, after space. -/
def tree? : (fuel limit : Nat) → List Char → Option (Tree × List Char)
  | 0, _, _ => none
  | fuel + 1, limit, cs =>
    match skipSpace cs with
    | 'n' :: 'u' :: 'l' :: 'l' :: rest => some (.null, rest)
    | 't' :: 'r' :: 'u' :: 'e' :: rest => some (.bool true, rest)
    | 'f' :: 'a' :: 'l' :: 's' :: 'e' :: rest => some (.bool false, rest)
    | '"' :: rest =>
      match stringRest? [] true rest with
      | none => none
      | some (none, rest) => some (.unreadable, rest)
      | some (some s, rest) => some (.string (String.ofList s), rest)
    | '[' :: rest =>
      match limit with
      | 0 => none
      | limit + 1 =>
        match skipSpace rest with
        | ']' :: rest => some (.array [], rest)
        | rest => items? fuel limit [] rest
    | '{' :: rest =>
      match limit with
      | 0 => none
      | limit + 1 =>
        match skipSpace rest with
        | '}' :: rest => some (.object [], rest)
        | rest => members? fuel limit true [] rest
    | c :: rest =>
      if c = '-' ∨ c.isDigit then
        match literal? (c :: rest) with
        | none => none
        | some (l, rest) =>
          match l.number? with
          | none => some (.unreadable, rest)
          | some n => some (.number n, rest)
      else none
    | [] => none
/-- The items of an array up to its closing bracket; `acc` holds those so far in reverse. -/
def items? : (fuel limit : Nat) → List Tree → List Char → Option (Tree × List Char)
  | 0, _, _, _ => none
  | fuel + 1, limit, acc, cs =>
    match tree? fuel limit cs with
    | none => none
    | some (t, rest) =>
      match skipSpace rest with
      | ',' :: rest => items? fuel limit (t :: acc) rest
      | ']' :: rest => some (.array (t :: acc).reverse, rest)
      | _ => none
/-- The members of an object up to its closing brace; `acc` holds those so far in reverse and
`readable` tells that every key denoted a text. -/
def members? : (fuel limit : Nat) → Bool → List (String × Tree) → List Char →
    Option (Tree × List Char)
  | 0, _, _, _, _ => none
  | fuel + 1, limit, readable, acc, cs =>
    match skipSpace cs with
    | '"' :: rest =>
      match stringRest? [] true rest with
      | none => none
      | some (key, rest) =>
        match skipSpace rest with
        | ':' :: rest =>
          match tree? fuel limit rest with
          | none => none
          | some (t, rest) =>
            let readable := readable && key.isSome
            let acc := (String.ofList (key.getD []), t) :: acc
            match skipSpace rest with
            | ',' :: rest => members? fuel limit readable acc rest
            | '}' :: rest =>
              some (if readable then .object acc.reverse else .unreadable, rest)
            | _ => none
        | _ => none
    | _ => none
end

/-- Reads a whole text with at most `limit` nested containers. -/
def read? (limit : Nat) (text : List Char) : Option Tree :=
  match tree? (2 * text.length + 2) limit text with
  | some (t, rest) => if (skipSpace rest).isEmpty then some t else none
  | none => none

/-- The number of nested containers that are read. -/
def nestingLimit : Nat := 127

/-- Reads a whole text as a value. -/
def parse? (text : String) : Option Value := (read? nestingLimit text.toList).bind Tree.value?

end Barrage.Json
