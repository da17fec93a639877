import IreBlockchain.Foundation.Text

/-!
# JSON texts

Values, their texts as `JSON.stringify` writes them, and a parser for the
grammar that `JSON.parse` accepts.  Strings are sequences of UTF-16 code units.
Properties are listed in the order of the text.
-/

namespace IreBlockchain.Foundation

abbrev JsString := List UInt16

instance : LawfulBEq JsString := inferInstance

inductive Json (Number : Type)
  | null
  | bool (value : Bool)
  | number (value : Number)
  | string (value : JsString)
  | array (elements : List (Json Number))
  | object (members : List (JsString × Json Number))

/-! ## Code units -/

def codeUnits (c : Char) : JsString :=
  let n := c.toNat
  if n < 0x10000 then [UInt16.ofNat n]
  else [UInt16.ofNat (0xd800 + (n - 0x10000) / 0x400),
    UInt16.ofNat (0xdc00 + (n - 0x10000) % 0x400)]

def toJsString (text : Text) : JsString := text.flatMap codeUnits

/-- A property of a value, where it is an object that has it. -/
def Json.get {Number : Type} (key : Text) :
    Json Number → Option (Json Number)
  | .object members =>
      (members.find? fun member => member.1 = toJsString key).map Prod.snd
  | _ => none

def isHighSurrogate (u : UInt16) : Bool :=
  0xd800 ≤ u.toNat && u.toNat < 0xdc00

def isLowSurrogate (u : UInt16) : Bool :=
  0xdc00 ≤ u.toNat && u.toNat < 0xe000

def surrogatePair (high low : UInt16) : Char :=
  Char.ofNat (0x10000 + (high.toNat - 0xd800) * 0x400 + (low.toNat - 0xdc00))

/-! ## Texts of strings -/

def hexDigits (n : Nat) : Text :=
  [Nat.digitChar (n / 4096 % 16), Nat.digitChar (n / 256 % 16),
    Nat.digitChar (n / 16 % 16), Nat.digitChar (n % 16)]

def unicodeEscape (u : UInt16) : Text :=
  '\\' :: 'u' :: hexDigits u.toNat

def shortEscape (n : Nat) : Option Char :=
  if n = 0x22 then some '"'
  else if n = 0x5c then some '\\'
  else if n = 0x08 then some 'b'
  else if n = 0x0c then some 'f'
  else if n = 0x0a then some 'n'
  else if n = 0x0d then some 'r'
  else if n = 0x09 then some 't'
  else none

/-- A code unit that belongs to no surrogate pair. -/
def quoteUnit (u : UInt16) : Text :=
  match shortEscape u.toNat with
  | some e => ['\\', e]
  | none =>
      if u.toNat < 0x20 || isHighSurrogate u || isLowSurrogate u then
        unicodeEscape u
      else [Char.ofNat u.toNat]

def quoteUnits : JsString → Text
  | [] => []
  | [u] => quoteUnit u
  | u :: v :: rest =>
      if isHighSurrogate u && isLowSurrogate v then
        surrogatePair u v :: quoteUnits rest
      else quoteUnit u ++ quoteUnits (v :: rest)

def quote (s : JsString) : Text := '"' :: quoteUnits s ++ ['"']

def hexValue (c : Char) : Option Nat :=
  if isDigit c then some (c.toNat - '0'.toNat)
  else if 'a' ≤ c && c ≤ 'f' then some (c.toNat - 'a'.toNat + 10)
  else if 'A' ≤ c && c ≤ 'F' then some (c.toNat - 'A'.toNat + 10)
  else none

def readHex (a b c d : Char) : Option UInt16 := do
  let a ← hexValue a
  let b ← hexValue b
  let c ← hexValue c
  let d ← hexValue d
  return UInt16.ofNat (((a * 16 + b) * 16 + c) * 16 + d)

def readEscape (e : Char) : Option UInt16 :=
  if e = '"' then some 0x22
  else if e = '\\' then some 0x5c
  else if e = '/' then some 0x2f
  else if e = 'b' then some 0x08
  else if e = 'f' then some 0x0c
  else if e = 'n' then some 0x0a
  else if e = 'r' then some 0x0d
  else if e = 't' then some 0x09
  else none

def prepend (units : JsString) : JsString × Text → JsString × Text
  | (s, rest) => (units ++ s, rest)

/-- The rest of a string, after its opening quote. -/
def parseString : Text → Option (JsString × Text)
  | [] => none
  | c :: rest =>
      if c = '"' then some ([], rest)
      else if c = '\\' then
        match rest with
        | [] => none
        | e :: rest =>
            if e = 'u' then
              match rest with
              | x :: y :: z :: w :: rest =>
                  (readHex x y z w).bind fun u =>
                    (parseString rest).map (prepend [u])
              | _ => none
            else
              (readEscape e).bind fun u =>
                (parseString rest).map (prepend [u])
      else if c.toNat < 0x20 then none
      else (parseString rest).map (prepend (codeUnits c))

/-! ## Numbers -/

def isNumberChar (c : Char) : Bool :=
  isDigit c || c = '-' || c = '+' || c = '.' || c = 'e' || c = 'E'

def dropSign (signs : List Char) : Text → Text
  | [] => []
  | c :: rest => if c ∈ signs then rest else c :: rest

def isExponent : Text → Bool
  | [] => true
  | c :: rest =>
      (c = 'e' || c = 'E') && dropSign ['+', '-'] rest ≠ [] &&
        (dropSign ['+', '-'] rest).all isDigit

def isFraction : Text → Bool
  | [] => true
  | c :: rest =>
      if c = '.' then
        rest.takeWhile isDigit ≠ [] && isExponent (rest.dropWhile isDigit)
      else isExponent (c :: rest)

def isNumberLiteral (text : Text) : Bool :=
  let text := dropSign ['-'] text
  let digits := text.takeWhile isDigit
  digits ≠ [] && (digits.head? ≠ some '0' || digits.length = 1) &&
    isFraction (text.dropWhile isDigit)

/--
The numbers of the language: how one is written, and the numbers nearest to a
literal and to what a string stands for, which may be infinite.  A finite number
is written as a literal that is read as the number again.
-/
structure NumberFormat where
  Number : Type
  toText : Number → Text
  ofText : Text → Number
  ofString : JsString → Option Number
  isFinite : Number → Bool
  isNumberLiteral_toText :
    ∀ n, isFinite n = true → isNumberLiteral (toText n) = true
  ofText_toText : ∀ n, isFinite n = true → ofText (toText n) = n

def literalFormat : NumberFormat where
  Number := { text : Text // isNumberLiteral text = true }
  toText := Subtype.val
  ofText text :=
    if h : isNumberLiteral text = true then ⟨text, h⟩
    else ⟨"0".toList, by decide⟩
  ofString _ := none
  isFinite _ := true
  isNumberLiteral_toText n _ := n.property
  ofText_toText n _ := by simp [n.property]

/-! ## Texts of values -/

section Stringify

variable (fmt : NumberFormat)

mutual

def Json.stringify : Json fmt.Number → Text
  | .null => "null".toList
  | .bool true => "true".toList
  | .bool false => "false".toList
  | .number n => if fmt.isFinite n then fmt.toText n else "null".toList
  | .string s => quote s
  | .array [] => ['[', ']']
  | .array (v :: vs) => '[' :: v.stringify ++ stringifyElements vs ++ [']']
  | .object [] => ['{', '}']
  | .object ((key, v) :: ms) =>
      '{' :: quote key ++ ':' :: v.stringify ++ stringifyMembers ms ++ ['}']

def stringifyElements : List (Json fmt.Number) → Text
  | [] => []
  | v :: vs => ',' :: v.stringify ++ stringifyElements vs

def stringifyMembers : List (JsString × Json fmt.Number) → Text
  | [] => []
  | (key, v) :: ms =>
      ',' :: quote key ++ ':' :: v.stringify ++ stringifyMembers ms

end

end Stringify

/-! ## Parsing -/

def isJsonSpace (c : Char) : Bool :=
  c = ' ' || c = '\t' || c = '\n' || c = '\r'

def skipSpace (text : Text) : Text := text.dropWhile isJsonSpace

def expect (c : Char) (text : Text) : Option Text :=
  match skipSpace text with
  | [] => none
  | d :: rest => if d = c then some rest else none

/-- Of the members with one key the last counts, at the place of the first. -/
def setMember {α : Type} (members : List (JsString × α)) (key : JsString)
    (value : α) : List (JsString × α) :=
  if members.any (·.1 = key) then
    members.map fun member =>
      if member.1 = key then (key, value) else member
  else members ++ [(key, value)]

def lastWins {α : Type} (members : List (JsString × α)) :
    List (JsString × α) :=
  members.foldl (fun done member => setMember done member.1 member.2) []

section Parse

variable (fmt : NumberFormat)

def parseScalar (text : Text) : Option (Json fmt.Number × Text) :=
  if "null".toList <+: text then some (.null, text.drop 4)
  else if "true".toList <+: text then some (.bool true, text.drop 4)
  else if "false".toList <+: text then some (.bool false, text.drop 5)
  else
    let literal := text.takeWhile isNumberChar
    if isNumberLiteral literal then
      some (.number (fmt.ofText literal), text.dropWhile isNumberChar)
    else none

mutual

def parseValue : Nat → Text → Option (Json fmt.Number × Text)
  | 0, _ => none
  | fuel + 1, text =>
      match expect '{' text with
      | some rest =>
          match expect '}' rest with
          | some rest => some (.object [], rest)
          | none => (parseMembers fuel rest).map fun (ms, rest) =>
              (.object (lastWins ms), rest)
      | none =>
      match expect '[' text with
      | some rest =>
          match expect ']' rest with
          | some rest => some (.array [], rest)
          | none => (parseElements fuel rest).map fun (vs, rest) =>
              (.array vs, rest)
      | none =>
      match expect '"' text with
      | some rest => (parseString rest).map fun (s, rest) => (.string s, rest)
      | none => parseScalar fmt (skipSpace text)

def parseElements : Nat → Text → Option (List (Json fmt.Number) × Text)
  | 0, _ => none
  | fuel + 1, text =>
      (parseValue fuel text).bind fun (v, rest) =>
        match expect ',' rest with
        | some rest =>
            (parseElements fuel rest).map fun (vs, rest) => (v :: vs, rest)
        | none => (expect ']' rest).map fun rest => ([v], rest)

def parseMembers : Nat → Text →
    Option (List (JsString × Json fmt.Number) × Text)
  | 0, _ => none
  | fuel + 1, text =>
      (expect '"' text).bind fun rest =>
      (parseString rest).bind fun (key, rest) =>
      (expect ':' rest).bind fun rest =>
      (parseValue fuel rest).bind fun (v, rest) =>
        match expect ',' rest with
        | some rest =>
            (parseMembers fuel rest).map fun (ms, rest) =>
              ((key, v) :: ms, rest)
        | none => (expect '}' rest).map fun rest => ([(key, v)], rest)

end

/-- `JSON.parse`, where an error is `none`. -/
def Json.parse (text : Text) : Option (Json fmt.Number) :=
  (parseValue fmt (2 * text.length + 1) text).bind fun (v, rest) =>
    if skipSpace rest = [] then some v else none

end Parse

/-! ## Well-formed values -/

section WellFormed

variable (fmt : NumberFormat)

mutual

/-- All numbers are finite, and no object has two members of one key. -/
def Json.WellFormed : Json fmt.Number → Prop
  | .number n => fmt.isFinite n = true
  | .array vs => WellFormedElements vs
  | .object ms => (ms.map Prod.fst).Nodup ∧ WellFormedMembers ms
  | _ => True

def WellFormedElements : List (Json fmt.Number) → Prop
  | [] => True
  | v :: vs => v.WellFormed ∧ WellFormedElements vs

def WellFormedMembers : List (JsString × Json fmt.Number) → Prop
  | [] => True
  | (_, v) :: ms => v.WellFormed ∧ WellFormedMembers ms

end

end WellFormed

end IreBlockchain.Foundation
