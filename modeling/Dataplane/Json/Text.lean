import Dataplane.Bytes.Hex
import Dataplane.Json

/-!
# JSON text

Reading and writing JSON values as text.

## The model

The reader works on a list of characters and gives a value with the characters after it. Each call
passes less fuel on; as every call reads a character, or goes over to the next part of a value,
twice the number of characters is enough. What is well written is always read, but a string with
half of a surrogate pair, an object with such a name, and an array or object that nests too deep are
spoilt. The writer puts no blanks between tokens.
-/

namespace Dataplane.Json

open Bytes (hexDigit hexValue?)

/-! ### Reading -/

/-- The characters after blanks. -/
def skipBlanks (cs : List Char) : List Char :=
  cs.dropWhile fun c => c = ' ' ∨ c = '\n' ∨ c = '\r' ∨ c = '\t'

/-- The number that four hexadecimal digits write. -/
def hexFour? : List Char → Option (Nat × List Char)
  | a :: b :: c :: d :: rest => do
    let n := ((← hexValue? a) * 16 + (← hexValue? b)) * 256 + (← hexValue? c) * 16 +
      (← hexValue? d)
    return (n, rest)
  | _ => none

/-- Is this the first half of a surrogate pair? -/
def isHighSurrogate (n : Nat) : Bool := 0xD800 ≤ n ∧ n < 0xDC00

/-- Is this the second half of a surrogate pair? -/
def isLowSurrogate (n : Nat) : Bool := 0xDC00 ≤ n ∧ n < 0xE000

/-- What an escape `\u` stands for. Two surrogates make one character; one of them alone makes
none. -/
def unicodeEscape? (cs : List Char) : Option (Option Char × List Char) := do
  let (hi, rest) ← hexFour? cs
  if isHighSurrogate hi then
    match rest with
    | '\\' :: 'u' :: more =>
      let (lo, more) ← hexFour? more
      if isLowSurrogate lo then
        return (some (Char.ofNat (0x10000 + (hi - 0xD800) * 0x400 + (lo - 0xDC00))), more)
      else return (none, rest)
    | _ => return (none, rest)
  else if isLowSurrogate hi then return (none, rest)
  else return (some (Char.ofNat hi), rest)

/-- The character a one-letter escape stands for. -/
def escape? : Char → Option Char
  | '"' => some '"'
  | '\\' => some '\\'
  | '/' => some '/'
  | 'b' => some '\x08'
  | 'f' => some '\x0c'
  | 'n' => some '\n'
  | 'r' => some '\r'
  | 't' => some '\t'
  | _ => none

/-- Reads a string up to its closing quote; `done` holds what has been read, last character first,
unless one of the escapes read stands for no character. -/
def readString : (fuel : Nat) → (done : Option (List Char)) → List Char →
    Option (Option String × List Char)
  | 0, _, _ => none
  | _ + 1, _, [] => none
  | _ + 1, done, '"' :: rest => some (done.map (String.ofList ·.reverse), rest)
  | fuel + 1, done, '\\' :: 'u' :: rest =>
    match unicodeEscape? rest with
    | some (c, rest) => readString fuel (done.bind fun cs => c.map (· :: cs)) rest
    | none => none
  | fuel + 1, done, '\\' :: e :: rest =>
    match escape? e with
    | some c => readString fuel (done.map (c :: ·)) rest
    | none => none
  | fuel + 1, done, c :: rest =>
    if c.toNat < 32 ∨ c = '\\' then none else readString fuel (done.map (c :: ·)) rest

/-- The leading digits and what follows them. -/
def spanDigits (cs : List Char) : List Char × List Char :=
  (cs.takeWhile Char.isDigit, cs.dropWhile Char.isDigit)

/-- The fraction, if there is one, and what follows it. -/
def readFraction : List Char → Option (List Char × List Char)
  | '.' :: rest =>
    let (ds, rest) := spanDigits rest
    if ds = [] then none else some ('.' :: ds, rest)
  | cs => some ([], cs)

/-- The exponent, if there is one, and what follows it. -/
def readExponent : List Char → Option (List Char × List Char)
  | e :: rest =>
    if e = 'e' ∨ e = 'E' then
      let (sign, rest) := match rest with
        | '+' :: rest => (['+'], rest)
        | '-' :: rest => (['-'], rest)
        | rest => ([], rest)
      let (ds, rest) := spanDigits rest
      if ds = [] then none else some (e :: sign ++ ds, rest)
    else some ([], e :: rest)
  | [] => some ([], [])

/-- The number that decimal digits write. -/
def digitsValue (ds : List Char) : Nat := ds.foldl (fun n d => n * 10 + (d.toNat - 48)) 0

/-- Reads a number. A zero with a minus sign is not an integer. -/
def readNumber (cs : List Char) : Option (Json × List Char) := do
  let (neg, cs) := match cs with
    | '-' :: rest => (true, rest)
    | cs => (false, cs)
  let (ds, cs) := spanDigits cs
  if ds = [] ∨ (1 < ds.length ∧ ds.head? = some '0') then none
  let (frac, cs) ← readFraction cs
  let (exp, cs) ← readExponent cs
  let n := digitsValue ds
  if frac = [] ∧ exp = [] ∧ ¬ (neg ∧ n = 0) then
    return (.int (if neg then -n else n), cs)
  else
    return (.real (String.ofList ((if neg then ['-'] else []) ++ ds ++ frac ++ exp)), cs)

/-- Reads a value that is no array and no object. -/
def readLeaf (fuel : Nat) : List Char → Option (Json × List Char)
  | 'n' :: 'u' :: 'l' :: 'l' :: rest => some (.null, rest)
  | 't' :: 'r' :: 'u' :: 'e' :: rest => some (.bool true, rest)
  | 'f' :: 'a' :: 'l' :: 's' :: 'e' :: rest => some (.bool false, rest)
  | '"' :: rest =>
    (readString fuel (some []) rest).map fun (s, rest) => (s.elim .spoilt .str, rest)
  | rest => readNumber rest

/-- Reads a name and the colon after it. -/
def readName (fuel : Nat) (cs : List Char) : Option (Option String × List Char) := do
  match skipBlanks cs with
  | '"' :: rest =>
    let (name, rest) ← readString fuel (some []) rest
    match skipBlanks rest with
    | ':' :: rest => return (name, rest)
    | _ => none
  | _ => none

/-- Which part of an array or an object comes next. -/
inductive Expected where
  | value
  | name
  /-- A comma or a closing bracket. -/
  | separator

/-- Reads what is left of a value that is not kept; `closers` holds the closing brackets to come. -/
def passOver : (fuel : Nat) → (next : Expected) → (closers : List Char) → List Char →
    Option (List Char)
  | 0, _, _, _ => none
  | fuel + 1, .value, closers, cs =>
    match skipBlanks cs with
    | '[' :: rest =>
      match skipBlanks rest with
      | ']' :: rest => passOver fuel .separator closers rest
      | rest => passOver fuel .value (']' :: closers) rest
    | '\x7b' :: rest =>
      match skipBlanks rest with
      | '\x7d' :: rest => passOver fuel .separator closers rest
      | rest => passOver fuel .name ('\x7d' :: closers) rest
    | rest =>
      match readLeaf fuel rest with
      | some (_, rest) => passOver fuel .separator closers rest
      | none => none
  | fuel + 1, .name, closers, cs =>
    match readName fuel cs with
    | some (_, rest) => passOver fuel .value closers rest
    | none => none
  | _ + 1, .separator, [], cs => some cs
  | fuel + 1, .separator, closer :: closers, cs =>
    match skipBlanks cs with
    | ',' :: rest =>
      passOver fuel (if closer = ']' then .value else .name) (closer :: closers) rest
    | c :: rest => if c = closer then passOver fuel .separator closers rest else none
    | [] => none

mutual

/-- Reads a value, in which arrays and objects may nest `room` deep. -/
def readValue : (fuel : Nat) → (room : Nat) → List Char → Option (Json × List Char)
  | 0, _, _ => none
  | fuel + 1, room, cs =>
    match skipBlanks cs, room with
    | '[' :: rest, room + 1 =>
      match skipBlanks rest with
      | ']' :: rest => some (.arr [], rest)
      | rest => readElems fuel room [] rest
    | '\x7b' :: rest, room + 1 =>
      match skipBlanks rest with
      | '\x7d' :: rest => some (.obj [], rest)
      | rest => readMembers fuel room (some []) rest
    | '[' :: rest, 0 => (passOver fuel .value [] ('[' :: rest)).map (.spoilt, ·)
    | '\x7b' :: rest, 0 => (passOver fuel .value [] ('\x7b' :: rest)).map (.spoilt, ·)
    | rest, _ => readLeaf fuel rest

/-- Reads the elements of an array and its closing bracket; `done` holds the elements read, last
one first. -/
def readElems : (fuel : Nat) → (room : Nat) → (done : List Json) → List Char →
    Option (Json × List Char)
  | 0, _, _, _ => none
  | fuel + 1, room, done, cs =>
    match readValue fuel room cs with
    | none => none
    | some (v, rest) =>
      match skipBlanks rest with
      | ',' :: rest => readElems fuel room (v :: done) rest
      | ']' :: rest => some (.arr (v :: done).reverse, rest)
      | _ => none

/-- Reads the members of an object and its closing brace; `done` holds the members read, last one
first, unless one of the names is spoilt. -/
def readMembers : (fuel : Nat) → (room : Nat) → (done : Option (List (String × Json))) →
    List Char → Option (Json × List Char)
  | 0, _, _, _ => none
  | fuel + 1, room, done, cs =>
    match readName fuel cs with
    | none => none
    | some (name, rest) =>
      match readValue fuel room rest with
      | none => none
      | some (v, rest) =>
        let done := done.bind fun ms => name.map fun n => (n, v) :: ms
        match skipBlanks rest with
        | ',' :: rest => readMembers fuel room done rest
        | '\x7d' :: rest => some (done.elim .spoilt (.obj ·.reverse), rest)
        | _ => none

end

/-- How deep arrays and objects may nest. -/
def maxNesting : Nat := 127

/-- The value a text writes, if it writes one and nothing else. -/
def ofText? (s : String) : Option Json :=
  let cs := s.toList
  match readValue (2 * cs.length + 2) maxNesting cs with
  | some (v, rest) => if skipBlanks rest = [] then some v else none
  | none => none

/-! ### Writing -/

/-- The letter of the escape that is written for a character, if there is one. -/
def escapeLetter? : Char → Option Char
  | '"' => some '"'
  | '\\' => some '\\'
  | '\x08' => some 'b'
  | '\x0c' => some 'f'
  | '\n' => some 'n'
  | '\r' => some 'r'
  | '\t' => some 't'
  | _ => none

/-- A character inside a string. -/
def escaped (c : Char) : String :=
  match escapeLetter? c with
  | some letter => String.ofList ['\\', letter]
  | none =>
    if c.toNat < 32 then
      String.ofList ['\\', 'u', '0', '0', hexDigit (c.toNat / 16), hexDigit (c.toNat % 16)]
    else String.singleton c

/-- A string with its quotes, written after `out`. -/
def writeString (out : String) (s : String) : String :=
  (s.foldl (fun out c => out ++ escaped c) (out ++ "\"")) ++ "\""

mutual

/-- A value, written after `out`. -/
def write (out : String) : Json → String
  | null => out ++ "null"
  | bool b => out ++ if b then "true" else "false"
  | int n => out ++ toString n
  | real t => out ++ t
  | str s => writeString out s
  | arr es => writeElems (out ++ "[") true es ++ "]"
  | obj ms => writeMembers (out ++ "\x7b") true ms ++ "\x7d"
  | spoilt => out ++ "null"

/-- The elements of an array, written after `out`. -/
def writeElems (out : String) (first : Bool) : List Json → String
  | [] => out
  | e :: es => writeElems (write (if first then out else out ++ ",") e) false es

/-- The members of an object, written after `out`. -/
def writeMembers (out : String) (first : Bool) : List (String × Json) → String
  | [] => out
  | (name, v) :: ms =>
    let out := writeString (if first then out else out ++ ",") name
    writeMembers (write (out ++ ":") v) false ms

end

/-- The text of a value. -/
def text (j : Json) : String := write "" j

end Dataplane.Json
