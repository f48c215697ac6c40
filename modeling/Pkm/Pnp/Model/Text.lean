import Mathlib
/-!
# Texts of the policy language

Names, paths and patterns are lists of characters. This file has what the policy core
takes from the standard library of its own language, as far as it uses it: numbers
read from text, splitting and trimming, comparison up to the case of ASCII letters. The
hash of a name is the 64-bit FNV-1a hash of its encoding.
-/

namespace Pkm.Pnp

abbrev Text := List Char

/-- The length of the encoding of a text. -/
def utf8Len (text : Text) : ℕ := (text.map Char.utf8Size).sum

def joinPath (parent name : Text) : Text :=
  if parent.isEmpty then name else parent ++ '/' :: name

/-- FNV-1a, 64 bits. -/
def nameHash (name : Text) : BitVec 64 :=
  (name.flatMap String.utf8EncodeChar).foldl
    (fun h b => (h ^^^ b.toBitVec.setWidth 64) * 0x100000001b3#64) 0xcbf29ce484222325#64

/-! ## Case -/

/-- The comparison with a text in upper case. -/
def upperEq (s upper : Text) : Bool := s.map Char.toUpper == upper

def lowerEq (s lower : Text) : Bool := s.map Char.toLower == lower

def eqIgnoreAsciiCase (a b : Text) : Bool := a.map Char.toLower == b.map Char.toLower

/-! ## Pieces -/

def isAsciiWhitespace (c : Char) : Bool :=
  c == ' ' || c == '\t' || c == '\n' || c == '\r' || c == '\x0c'

/-- The characters with the property White_Space. -/
def isWhitespace (c : Char) : Bool :=
  let n := c.toNat
  (9 ≤ n && n ≤ 13) || n == 0x20 || n == 0x85 || n == 0xa0 || n == 0x1680 ||
    (0x2000 ≤ n && n ≤ 0x200a) || n == 0x2028 || n == 0x2029 || n == 0x202f || n == 0x205f ||
    n == 0x3000

def trim (s : Text) : Text := ((s.dropWhile isWhitespace).reverse.dropWhile isWhitespace).reverse

/-- The text before and after the first occurrence of a character. -/
def splitOnce (sep : Char) : Text → Option (Text × Text)
  | [] => none
  | c :: cs =>
    if c = sep then some ([], cs) else (splitOnce sep cs).map fun p => (c :: p.1, p.2)

/-- The text before and after the last occurrence of a character. -/
def rsplitOnce (sep : Char) : Text → Option (Text × Text)
  | [] => none
  | c :: cs =>
    match rsplitOnce sep cs with
    | some p => some (c :: p.1, p.2)
    | none => if c = sep then some ([], cs) else none

/-- All pieces between the occurrences of a character. -/
def split (sep : Char) : Text → List Text
  | [] => [[]]
  | c :: cs =>
    match split sep cs with
    | [] => [[]]
    | piece :: pieces => if c = sep then [] :: piece :: pieces else (c :: piece) :: pieces

def stripPrefix : Text → Text → Option Text
  | [], s => some s
  | _ :: _, [] => none
  | p :: ps, c :: cs => if p = c then stripPrefix ps cs else none

/-! ## Numbers -/

def digitOf (radix : ℕ) (c : Char) : Option ℕ :=
  let n := c.toNat
  let d :=
    if 48 ≤ n ∧ n ≤ 57 then n - 48
    else if 97 ≤ n ∧ n ≤ 122 then n - 97 + 10
    else if 65 ≤ n ∧ n ≤ 90 then n - 65 + 10
    else radix
  if d < radix then some d else none

def digitsFrom (radix acc : ℕ) : Text → Option ℕ
  | [] => some acc
  | c :: cs =>
    match digitOf radix c with
    | some d => digitsFrom radix (radix * acc + d) cs
    | none => none

/-- At least one digit, and nothing else. -/
def digits (radix : ℕ) (s : Text) : Option ℕ := if s.isEmpty then none else digitsFrom radix 0 s

/-- A number below `limit`; a sign may stand before it, but only `+`. -/
def parseUnsigned (radix limit : ℕ) (s : Text) : Option ℕ :=
  let body := match s with
    | '+' :: ds => ds
    | ds => ds
  (digits radix body).filter (· < limit)

def parseUint (s : Text) : Option ℕ := parseUnsigned 10 (2 ^ 64) s

def parseInt (s : Text) : Option ℤ :=
  match s with
  | '-' :: ds => ((digits 10 ds).filter (· ≤ 2 ^ 63)).map fun n => -(n : ℤ)
  | '+' :: ds => ((digits 10 ds).filter (· < 2 ^ 63)).map fun n => (n : ℤ)
  | ds => ((digits 10 ds).filter (· < 2 ^ 63)).map fun n => (n : ℤ)

end Pkm.Pnp
