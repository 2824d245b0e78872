import SqlAlgebra.Json.Basic
import SqlAlgebra.Number.Numeral

/-!
# Reading JSON

The value that a JSON text stands for.  Of two members with one key the later counts.
-/

namespace SqlAlgebra

namespace JsonNumber

/-- Whether a numeral is written as JSON has it. -/
def isWritten (n : Numeral) : Bool :=
  !n.whole.isEmpty && (n.whole.length == 1 || n.whole.head? != some '0') && n.fraction != some []

/-- The number that a numeral stands for, if it is in range.  An integer that 64 bits hold is one, but
for the negative zero; every other numeral stands for the nearest real, and one past the largest real
for nothing. -/
def ofNumeral? (n : Numeral) : Option JsonNumber :=
  let value := Text.decimalValue n.whole
  if n.isIntegral && !n.isNegative && value < UInt64.size then some (.integer value)
  else if n.isIntegral && n.isNegative && 0 < value && 2 * value ≤ UInt64.size then
    some (.integer (-value))
  else if n.toDouble.isFinite then some (.real n.toDouble)
  else none

end JsonNumber

namespace Json

def skipBlanks (s : List Char) : List Char :=
  s.dropWhile fun c => c == ' ' || c == '\t' || c == '\n' || c == '\r'

/-- A UTF-16 unit written as four hexadecimal digits, and what follows it. -/
def readUnit : List Char → Option (Nat × List Char)
  | a :: b :: c :: d :: rest =>
    match Text.hexValue? a, Text.hexValue? b, Text.hexValue? c, Text.hexValue? d with
    | some a, some b, some c, some d => some (((a * 16 + b) * 16 + c) * 16 + d, rest)
    | _, _, _, _ => none
  | _ => none

/-- The character that follows a backslash and a `u`, and what follows it.  A character outside of the
basic plane is written as two units; half of one is no character. -/
def readUnicode (s : List Char) : Option (Char × List Char) :=
  match readUnit s with
  | none => none
  | some (high, rest) =>
    if high < 0xd800 ∨ 0xe000 ≤ high then some (Char.ofNat high, rest)
    else
      match rest with
      | '\\' :: 'u' :: rest =>
        match readUnit rest with
        | some (low, rest) =>
          if high < 0xdc00 ∧ 0xdc00 ≤ low ∧ low < 0xe000 then
            some (Char.ofNat (0x10000 + (high - 0xd800) * 0x400 + (low - 0xdc00)), rest)
          else none
        | none => none
      | _ => none

/-- The characters of a string up to its closing quote, and what follows the quote. -/
def readString : Nat → List Char → Option (List Char × List Char)
  | 0, _ => none
  | fuel + 1, s =>
    let andThen (c : Char) (rest : List Char) : Option (List Char × List Char) :=
      match readString fuel rest with
      | some (cs, rest) => some (c :: cs, rest)
      | none => none
    match s with
    | '"' :: rest => some ([], rest)
    | '\\' :: 'u' :: rest =>
      match readUnicode rest with
      | some (c, rest) => andThen c rest
      | none => none
    | '\\' :: c :: rest =>
      match [('"', '"'), ('\\', '\\'), ('/', '/'), ('b', '\x08'), ('f', '\x0c'), ('n', '\n'),
        ('r', '\r'), ('t', '\t')].lookup c with
      | some c => andThen c rest
      | none => none
    | c :: rest => if c.toNat < 32 then none else andThen c rest
    | [] => none

def readNumber (s : List Char) : Option (Json × List Char) :=
  match Numeral.scan s with
  | some (n, rest) =>
    if JsonNumber.isWritten n then (JsonNumber.ofNumeral? n).map fun x => (.number x, rest) else none
  | none => none

mutual

/-- The value at the beginning of a text, and what follows it. -/
def readValue : Nat → List Char → Option (Json × List Char)
  | 0, _ => none
  | fuel + 1, s =>
    match skipBlanks s with
    | 'n' :: 'u' :: 'l' :: 'l' :: rest => some (.null, rest)
    | 't' :: 'r' :: 'u' :: 'e' :: rest => some (.boolean true, rest)
    | 'f' :: 'a' :: 'l' :: 's' :: 'e' :: rest => some (.boolean false, rest)
    | '"' :: rest =>
      match readString fuel rest with
      | some (cs, rest) => some (.string (String.ofList cs), rest)
      | none => none
    | '[' :: rest =>
      match skipBlanks rest with
      | ']' :: rest => some (.array [], rest)
      | _ => (readItems fuel rest).map fun (items, rest) => (.array items, rest)
    | '\x7b' :: rest =>
      match skipBlanks rest with
      | '\x7d' :: rest => some (.object [], rest)
      | _ => (readMembers fuel rest).map fun (members, rest) => (.ofMembers members, rest)
    | '-' :: rest => readNumber ('-' :: rest)
    | c :: rest => if c.isDigit then readNumber (c :: rest) else none
    | [] => none

/-- The items of an array up to its closing bracket, and what follows the bracket. -/
def readItems : Nat → List Char → Option (List Json × List Char)
  | 0, _ => none
  | fuel + 1, s =>
    match readValue fuel s with
    | none => none
    | some (item, rest) =>
      match skipBlanks rest with
      | ']' :: rest => some ([item], rest)
      | ',' :: rest => (readItems fuel rest).map fun (items, rest) => (item :: items, rest)
      | _ => none

/-- The members of an object up to its closing brace, and what follows the brace. -/
def readMembers : Nat → List Char → Option (List (String × Json) × List Char)
  | 0, _ => none
  | fuel + 1, s =>
    match skipBlanks s with
    | '"' :: rest =>
      match readString fuel rest with
      | none => none
      | some (key, rest) =>
        match skipBlanks rest with
        | ':' :: rest =>
          match readValue fuel rest with
          | none => none
          | some (value, rest) =>
            let member := (String.ofList key, value)
            match skipBlanks rest with
            | '\x7d' :: rest => some ([member], rest)
            | ',' :: rest =>
              (readMembers fuel rest).map fun (members, rest) => (member :: members, rest)
            | _ => none
        | _ => none
    | _ => none

end

/-- The value that a whole text stands for.  Every step but the last takes a character, so there are
enough steps for any text. -/
def ofText? (s : String) : Option Json :=
  match readValue (s.length + 1) s.toList with
  | some (value, rest) => if (skipBlanks rest).isEmpty then some value else none
  | none => none

end Json

end SqlAlgebra
