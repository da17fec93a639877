import Mathlib.Algebra.GroupWithZero.Nat
import Mathlib.Data.Bool.AllAny
import Mathlib.Data.Char
import Mathlib.Data.List.DropRight
import Mathlib.Data.List.Lex

/-!
# Texts

A text is the list of its characters, so that functions over texts are
structural recursions.
-/

namespace IreBlockchain.Foundation

abbrev Text := List Char

instance : LawfulBEq Text := inferInstance

abbrev Bytes := List UInt8

def byteLength (text : Text) : Nat :=
  (text.map Char.utf8Size).sum

def join (separator : Text) (parts : List Text) : Text :=
  separator.intercalate parts

/-- The ASCII letters in lower case. -/
def lower (text : Text) : Text :=
  text.map Char.toLower

def upper (text : Text) : Text :=
  text.map Char.toUpper

/-- The white space of `trim` and of `\s`. -/
def isSpace (c : Char) : Bool :=
  let n := c.toNat
  (9 ≤ n && n ≤ 13) || n = 0x20 || n = 0xa0 || n = 0x1680 ||
    (0x2000 ≤ n && n ≤ 0x200a) || n = 0x2028 || n = 0x2029 || n = 0x202f ||
    n = 0x205f || n = 0x3000 || n = 0xfeff

def trim (text : Text) : Text :=
  (text.dropWhile isSpace).rdropWhile isSpace

def padStart (length : Nat) (c : Char) (text : Text) : Text :=
  List.replicate (length - text.length) c ++ text

def decimal (n : Nat) : Text := Nat.toDigits 10 n

def isDigit (c : Char) : Bool := '0' ≤ c && c ≤ '9'

def digitsValue (digits : Text) : Nat :=
  digits.foldl (fun n c => 10 * n + (c.toNat - '0'.toNat)) 0

/-- `parseInt(text, 10)`, where that is a natural number. -/
def parseNat (text : Text) : Option Nat :=
  let rest := text.dropWhile isSpace
  let digits := (if rest.head? = some '+' then rest.tail else rest).takeWhile
    isDigit
  if digits = [] then none else some (digitsValue digits)

/-- Parts without the separator can be told apart in the joined text. -/
theorem join_inj {c : Char} {parts parts' : List Text}
    (hne : parts ≠ []) (hne' : parts' ≠ [])
    (hfree : ∀ part ∈ parts, c ∉ part) (hfree' : ∀ part ∈ parts', c ∉ part) :
    join [c] parts = join [c] parts' ↔ parts = parts' := by
  constructor
  · intro h
    rw [← List.splitOn_intercalate c hfree hne, ← join, h, join,
      List.splitOn_intercalate c hfree' hne']
  · rintro rfl
    rfl

theorem isUpper_iff_toNat {c : Char} :
    c.isUpper = true ↔ 65 ≤ c.toNat ∧ c.toNat ≤ 90 :=
  decide_eq_true_iff

theorem isLower_iff_toNat {c : Char} :
    c.isLower = true ↔ 97 ≤ c.toNat ∧ c.toNat ≤ 122 := by
  change (decide (_ ≤ _) && decide (_ ≤ _)) = true ↔ _
  rw [Bool.and_eq_true, decide_eq_true_eq, decide_eq_true_eq]
  rfl

theorem isAlpha_iff_toNat {c : Char} : c.isAlpha = true ↔
    (65 ≤ c.toNat ∧ c.toNat ≤ 90) ∨ 97 ≤ c.toNat ∧ c.toNat ≤ 122 := by
  rw [← isUpper_iff_toNat, ← isLower_iff_toNat]
  exact Bool.or_eq_true_iff

end IreBlockchain.Foundation
