import Mathlib.Data.List.Forall2

/-!
# Numbers and arrays of the browser's language

A number here is an integer below `2 ^ 53` in size, up to where sums are exact,
or it is `NaN`, which is also how a missing element acts in a sum.  The operators
on bits see the lowest 32 bits of a number, and none of `NaN`.
-/

namespace IreBlockchain.Foundation

inductive JsNum
  | nan
  | int (n : Int)
  deriving DecidableEq

namespace JsNum

instance instOfNat (n : Nat) : OfNat JsNum n := ⟨.int n⟩

/-- The bits of a number, as the operators on bits see them. -/
def toInt32 : JsNum → BitVec 32
  | nan => 0
  | int n => BitVec.ofInt 32 n

def ofInt32 (b : BitVec 32) : JsNum := int b.toInt

def add : JsNum → JsNum → JsNum
  | int n, int m => int (n + m)
  | _, _ => nan

instance instAdd : Add JsNum := ⟨add⟩

instance instAnd : AndOp JsNum := ⟨fun x y => ofInt32 (x.toInt32 &&& y.toInt32)⟩

instance instOr : OrOp JsNum := ⟨fun x y => ofInt32 (x.toInt32 ||| y.toInt32)⟩

instance instXor : XorOp JsNum := ⟨fun x y => ofInt32 (x.toInt32 ^^^ y.toInt32)⟩

instance instComplement : Complement JsNum := ⟨fun x => ofInt32 (~~~x.toInt32)⟩

/-- The count of a shift is taken modulo 32, also if it is negative. -/
def shiftCount (count : Int) : Nat := (count % 32).toNat

def shl (x : JsNum) (count : Int) : JsNum :=
  ofInt32 (x.toInt32 <<< shiftCount count)

def sar (x : JsNum) (count : Int) : JsNum :=
  ofInt32 (x.toInt32.sshiftRight (shiftCount count))

/-- `x >>> count`, which is not negative. -/
def shr (x : JsNum) (count : Int) : JsNum :=
  int (x.toInt32 >>> shiftCount count).toNat

/-! ## The bits behind a number -/

variable {x y : JsNum} {a b : BitVec 32}

@[simp] theorem toInt32_ofInt32 (b : BitVec 32) : (ofInt32 b).toInt32 = b :=
  BitVec.ofInt_toInt

@[simp] theorem toInt32_natCast (n : Nat) :
    (int n).toInt32 = BitVec.ofNat 32 n :=
  BitVec.ofInt_natCast 32 n

@[simp] theorem nan_add (x : JsNum) : nan + x = nan := by cases x <;> rfl

@[simp] theorem add_nan (x : JsNum) : x + nan = nan := by cases x <;> rfl

theorem or_eq (x y : JsNum) : x ||| y = ofInt32 (x.toInt32 ||| y.toInt32) := rfl

theorem shiftCount_natCast {n : Nat} (h : n < 32) : shiftCount n = n := by
  unfold shiftCount
  omega

/-- The number is an integer with the bits of `b`, whatever its sign and size. -/
def Is (x : JsNum) (b : BitVec 32) : Prop := ∃ n, x = int n ∧ BitVec.ofInt 32 n = b

theorem is_ofInt32 (b : BitVec 32) : (ofInt32 b).Is b :=
  ⟨_, rfl, toInt32_ofInt32 b⟩

theorem is_natCast (n : Nat) : (int n).Is (BitVec.ofNat 32 n) :=
  ⟨_, rfl, toInt32_natCast n⟩

theorem Is.toInt32 (h : x.Is a) : x.toInt32 = a := by
  obtain ⟨n, rfl, hn⟩ := h
  exact hn

theorem Is.add (hx : x.Is a) (hy : y.Is b) : (x + y).Is (a + b) := by
  obtain ⟨n, rfl, rfl⟩ := hx
  obtain ⟨m, rfl, rfl⟩ := hy
  exact ⟨n + m, rfl, BitVec.ofInt_add n m⟩

theorem Is.and (hx : x.Is a) (hy : y.Is b) : (x &&& y).Is (a &&& b) := by
  rw [← hx.toInt32, ← hy.toInt32]
  exact is_ofInt32 _

theorem Is.xor (hx : x.Is a) (hy : y.Is b) : (x ^^^ y).Is (a ^^^ b) := by
  rw [← hx.toInt32, ← hy.toInt32]
  exact is_ofInt32 _

theorem Is.or (hx : x.Is a) (hy : y.Is b) : (x ||| y).Is (a ||| b) := by
  rw [← hx.toInt32, ← hy.toInt32]
  exact is_ofInt32 _

theorem Is.complement (hx : x.Is a) : (~~~x).Is (~~~a) := by
  rw [← hx.toInt32]
  exact is_ofInt32 _

theorem Is.shl (hx : x.Is a) {n : Nat} (h : n < 32) : (x.shl n).Is (a <<< n) := by
  rw [JsNum.shl, hx.toInt32, shiftCount_natCast h]
  exact is_ofInt32 _

theorem Is.shr (hx : x.Is a) {n : Nat} (h : n < 32) : (x.shr n).Is (a >>> n) := by
  rw [JsNum.shr, hx.toInt32, shiftCount_natCast h]
  have his := is_natCast (a >>> n).toNat
  rwa [BitVec.ofNat_toNat, BitVec.setWidth_eq] at his

theorem Is.or_zero (hx : x.Is a) : x ||| 0 = ofInt32 a := by
  rw [or_eq, hx.toInt32]
  exact congrArg ofInt32 BitVec.or_zero

end JsNum

/-! ## Arrays of numbers -/

def elementAt (arr : List JsNum) (i : Int) : JsNum :=
  if i < 0 then .nan else arr.getD i.toNat .nan

/--
`arr[i] = v`.  With a negative `i` this sets a property that is no element; what
lies between the elements and a larger `i` is missing.
-/
def setElement (arr : List JsNum) (i : Int) (v : JsNum) : List JsNum :=
  if i < 0 then arr
  else if i.toNat < arr.length then arr.set i.toNat v
  else arr ++ List.replicate (i.toNat - arr.length) .nan ++ [v]

@[simp] theorem elementAt_natCast (arr : List JsNum) (i : Nat) :
    elementAt arr i = arr.getD i .nan :=
  if_neg (Int.not_lt.mpr (Int.natCast_nonneg i))

theorem setElement_of_neg (arr : List JsNum) {i : Int} (h : i < 0) (v : JsNum) :
    setElement arr i v = arr :=
  if_pos h

theorem setElement_of_lt {arr : List JsNum} {i : Nat} (h : i < arr.length) (v : JsNum) :
    setElement arr i v = arr.set i v := by
  have hpos : ¬ (i : Int) < 0 := by omega
  rw [setElement, if_neg hpos, Int.toNat_natCast, if_pos h]

theorem setElement_length (arr : List JsNum) (v : JsNum) :
    setElement arr arr.length v = arr ++ [v] := by
  have hpos : ¬ (arr.length : Int) < 0 := by omega
  simp [setElement, hpos]

abbrev HasBits (arr : List JsNum) (words : List (BitVec 32)) : Prop :=
  List.Forall₂ JsNum.Is arr words

theorem hasBits_map_ofInt32 (words : List (BitVec 32)) :
    HasBits (words.map JsNum.ofInt32) words := by
  induction words with
  | nil => exact .nil
  | cons b words ih => exact .cons (JsNum.is_ofInt32 b) ih

theorem HasBits.elementAt {arr : List JsNum} {words : List (BitVec 32)}
    (h : HasBits arr words) {i : Nat} (hi : i < words.length) :
    (Foundation.elementAt arr i).Is (words.getD i 0) := by
  have harr : i < arr.length := h.length_eq ▸ hi
  have his := (List.forall₂_iff_get.mp h).2 i harr hi
  simp only [elementAt_natCast, List.getD_eq_getElem?_getD,
    List.getElem?_eq_getElem harr, List.getElem?_eq_getElem hi]
  exact his

end IreBlockchain.Foundation
