import IreBlockchain.Foundation.Protobuf
import IreBlockchain.Foundation.Results
import Mathlib.Data.Nat.Size

/-!
# Reading the protobuf wire format

The readers that generated decoders share: varints, length prefixes and the
skipping of a field that a message does not know, groups included.
-/

namespace IreBlockchain.Foundation.Wire

open IreBlockchain.Foundation

inductive Error
  | intOverflow
  | unexpectedEOF
  | invalidLength
  | unexpectedEndOfGroup
  | illegalWireType (wireType : Nat)
  | endGroup (message : Text)
  | illegalTag (message : Text) (fieldNum : Int) (wire : Nat)
  | wrongWireType (wireType : Nat) (field : Text)
  | other (text : Text)
  deriving DecidableEq

def Error.text : Error → Text
  | intOverflow => "proto: integer overflow".toList
  | unexpectedEOF => "unexpected EOF".toList
  | invalidLength => "proto: negative length found during unmarshaling".toList
  | unexpectedEndOfGroup => "proto: unexpected end of group".toList
  | illegalWireType wireType =>
      "proto: illegal wireType ".toList ++ decimal wireType
  | endGroup message =>
      "proto: ".toList ++ message ++
        ": wiretype end group for non-group".toList
  | illegalTag message fieldNum wire =>
      "proto: ".toList ++ message ++ ": illegal tag ".toList ++
        (toString fieldNum).toList ++ " (wire type ".toList ++ decimal wire ++
        ")".toList
  | wrongWireType wireType field =>
      "proto: wrong wireType = ".toList ++ decimal wireType ++
        " for field ".toList ++ field
  | other text => text

/-! ## Varints -/

def uvarint : Nat → Bytes → Except Error (Nat × Bytes)
  | 0, _ => .error .intOverflow
  | _ + 1, [] => .error .unexpectedEOF
  | k + 1, b :: rest =>
      if b.toNat < 128 then .ok (b.toNat, rest)
      else do
        let (high, rest) ← uvarint k rest
        return (b.toNat % 128 + 128 * high, rest)

/-- Ten bytes hold 70 bits; the highest six are shifted out. -/
def readVarint (data : Bytes) : Except Error (Nat × Bytes) := do
  let (n, rest) ← uvarint 10 data
  return (n % 2 ^ 64, rest)

/-- The generated `sov` functions: the length of a varint. -/
def sov (x : Nat) : Nat := (Nat.size (x ||| 1) + 6) / 7

theorem varintFrom_eq_varintFrom {fuel fuel' n : Nat} (h : n ≤ fuel)
    (h' : n ≤ fuel') : varintFrom fuel n = varintFrom fuel' n := by
  induction fuel generalizing fuel' n with
  | zero =>
      obtain rfl : n = 0 := by omega
      cases fuel' <;> rfl
  | succ fuel ih =>
      cases fuel' with
      | zero =>
          obtain rfl : n = 0 := by omega
          rfl
      | succ fuel' =>
          unfold varintFrom
          split
          · rfl
          · have hhigh : varintFrom fuel (n / 128) =
                varintFrom fuel' (n / 128) := ih (by omega) (by omega)
            rw [hhigh]

theorem varint_of_ge {n : Nat} (h : 128 ≤ n) :
    varint n = UInt8.ofNat (n % 128 + 128) :: varint (n / 128) := by
  obtain ⟨fuel, rfl⟩ : ∃ fuel, n = fuel + 1 := ⟨n - 1, by omega⟩
  unfold varint
  rw [varintFrom, if_neg (by omega),
    varintFrom_eq_varintFrom (by omega) (le_refl ((fuel + 1) / 128))]

theorem uvarint_varint {k n : Nat} (h : n < 128 ^ (k + 1)) (rest : Bytes) :
    uvarint (k + 1) (varint n ++ rest) = .ok (n, rest) := by
  induction k generalizing n with
  | zero =>
      have hlt : n < 128 := by omega
      simp only [varint_of_lt hlt, List.singleton_append, uvarint,
        UInt8.toNat_ofNat']
      rw [if_pos (by omega), Nat.mod_eq_of_lt (by omega)]
  | succ k ih =>
      by_cases hlt : n < 128
      · simp only [varint_of_lt hlt, List.singleton_append, uvarint,
          UInt8.toNat_ofNat']
        rw [if_pos (by omega), Nat.mod_eq_of_lt (by omega)]
      · have hhigh : n / 128 < 128 ^ (k + 1) := by
          apply Nat.div_lt_of_lt_mul
          rwa [← Nat.pow_succ']
        rw [varint_of_ge (by omega), List.cons_append, uvarint,
          UInt8.toNat_ofNat', if_neg (by omega), ih hhigh, ok_bind]
        simp only [pure, Except.pure, Except.ok.injEq, Prod.mk.injEq, and_true]
        omega

theorem readVarint_varint {n : Nat} (h : n < 2 ^ 64) (rest : Bytes) :
    readVarint (varint n ++ rest) = .ok (n, rest) := by
  unfold readVarint
  rw [uvarint_varint (by omega), ok_bind]
  simp only [Nat.mod_eq_of_lt h, pure, Except.pure]

theorem sov_of_lt {n : Nat} (h : n < 128) : sov n = 1 := by
  have hlow : 0 < Nat.size (n ||| 1) := by
    rw [Nat.size_pos]
    exact Nat.lt_of_lt_of_le Nat.one_pos Nat.right_le_or
  have hhigh : Nat.size (n ||| 1) ≤ 7 := by
    rw [Nat.size_le]
    exact Nat.or_lt_two_pow (by omega) (by omega)
  unfold sov
  omega

theorem or_one_div (n : Nat) : (n ||| 1) / 128 = n / 128 := by
  have h := Nat.shiftRight_or_distrib (a := n) (b := 1) (i := 7)
  simpa only [Nat.shiftRight_eq_div_pow, Nat.reducePow, Nat.reduceDiv,
    Nat.or_zero] using h

theorem size_div {n : Nat} (h : 128 ≤ n) :
    Nat.size n = Nat.size (n / 128) + 7 := by
  apply Nat.le_antisymm
  · rw [Nat.size_le, Nat.pow_add]
    have hlt : n / 128 < 2 ^ Nat.size (n / 128) := Nat.lt_size_self _
    omega
  · have hpos : 0 < Nat.size (n / 128) := by
      rw [Nat.size_pos]
      omega
    have hle : 2 ^ (Nat.size (n / 128) - 1) ≤ n / 128 := by
      rw [← Nat.lt_size]
      omega
    have hlt : Nat.size (n / 128) - 1 + 7 < Nat.size n := by
      rw [Nat.lt_size, Nat.pow_add]
      omega
    omega

theorem sov_of_ge {n : Nat} (h : 128 ≤ n) : sov n = sov (n / 128) + 1 := by
  have hor : 128 ≤ n ||| 1 := le_trans h Nat.left_le_or
  have hhigh : Nat.size (n / 128 ||| 1) = Nat.size (n / 128) := by
    apply Nat.le_antisymm
    · rw [Nat.size_le]
      have hpos : 0 < Nat.size (n / 128) := by
        rw [Nat.size_pos]
        omega
      exact Nat.or_lt_two_pow (Nat.lt_size_self _)
        (Nat.one_lt_two_pow (by omega))
    · exact Nat.size_le_size Nat.left_le_or
  unfold sov
  rw [size_div hor, or_one_div, hhigh]
  omega

theorem length_varint (n : Nat) : (varint n).length = sov n := by
  induction n using Nat.strongRecOn with
  | ind n ih =>
      by_cases h : n < 128
      · rw [varint_of_lt h, sov_of_lt h]
        rfl
      · rw [varint_of_ge (by omega), sov_of_ge (by omega), List.length_cons,
          ih _ (by omega)]

theorem sov_pos (n : Nat) : 0 < sov n := by
  by_cases h : n < 128
  · rw [sov_of_lt h]
    exact Nat.one_pos
  · rw [sov_of_ge (by omega)]
    exact Nat.succ_pos _

/-! ## Payloads -/

inductive Kind
  | varint
  | lengthDelimited
  deriving DecidableEq

abbrev Kind.Payload : Kind → Type
  | .varint => UInt64
  | .lengthDelimited => Bytes

def Kind.wireType : Kind → Nat
  | .varint => 0
  | .lengthDelimited => 2

def Kind.write : (kind : Kind) → kind.Payload → Bytes
  | .varint, n => Foundation.varint n.toNat
  | .lengthDelimited, payload =>
      Foundation.varint payload.length ++ payload

/--
The first `n` of the unread bytes of a slice of length `l`.  A length or an end
from `2 ^ 63` on is negative as an `int`.
-/
def takeBytes (l n : Nat) (rest : Bytes) : Except Error (Bytes × Bytes) :=
  if 2 ^ 63 ≤ n ∨ 2 ^ 63 ≤ l - rest.length + n then .error .invalidLength
  else if rest.length < n then .error .unexpectedEOF
  else .ok (rest.take n, rest.drop n)

def Kind.read (l : Nat) :
    (kind : Kind) → Bytes → Except Error (kind.Payload × Bytes)
  | .varint, data => do
      let (n, rest) ← readVarint data
      return (UInt64.ofNat n, rest)
  | .lengthDelimited, data => do
      let (n, rest) ← readVarint data
      takeBytes l n rest

def Kind.Fits : (kind : Kind) → kind.Payload → Prop
  | .varint, _ => True
  | .lengthDelimited, payload => payload.length < 2 ^ 63

theorem takeBytes_append {l : Nat} (payload : Bytes) {rest : Bytes}
    (hl : l < 2 ^ 63) (h : (payload ++ rest).length ≤ l) :
    takeBytes l payload.length (payload ++ rest) = .ok (payload, rest) := by
  unfold takeBytes
  rw [List.length_append] at h ⊢
  rw [if_neg (by omega), if_neg (by omega), List.take_left, List.drop_left]

theorem Kind.read_write {l : Nat} (kind : Kind) (payload : kind.Payload)
    {rest : Bytes} (hl : l < 2 ^ 63)
    (h : (kind.write payload ++ rest).length ≤ l) :
    kind.read l (kind.write payload ++ rest) = .ok (payload, rest) := by
  cases kind with
  | varint =>
      simp only [Kind.read, Kind.write, readVarint_varint (UInt64.toNat_lt _),
        ok_bind, UInt64.ofNat_toNat, pure, Except.pure]
  | lengthDelimited =>
      simp only [Kind.write, List.append_assoc, List.length_append] at h
      simp only [Kind.read, Kind.write, List.append_assoc,
        readVarint_varint (n := payload.length) (by omega), ok_bind]
      exact takeBytes_append payload hl (by rw [List.length_append]; omega)

/-! ## Skipping -/

/-- What `skip` does after a tag: the depth and the index after the value. -/
def skipValue (l depth wireType : Nat) (rest : Bytes) :
    Except Error (Nat × Nat) :=
  match wireType with
  | 0 => do
      let (_, rest) ← uvarint 10 rest
      return (depth, l - rest.length)
  | 1 => return (depth, l - rest.length + 8)
  | 2 => do
      let (length, rest) ← readVarint rest
      if 2 ^ 63 ≤ length then .error .invalidLength
      else return (depth, l - rest.length + length)
  | 3 => return (depth + 1, l - rest.length)
  | 4 =>
      if depth = 0 then .error .unexpectedEndOfGroup
      else return (depth - 1, l - rest.length)
  | 5 => return (depth, l - rest.length + 4)
  | wireType => .error (.illegalWireType wireType)

/-- The loop of `skip`; a turn reads a byte, so `fuel` is the slice's length. -/
def skipFrom (data : Bytes) : Nat → Nat → Nat → Except Error Nat
  | 0, _, _ => .error .unexpectedEOF
  | fuel + 1, depth, iNdEx =>
      if data.length ≤ iNdEx then .error .unexpectedEOF
      else do
        let (wire, rest) ← readVarint (data.drop iNdEx)
        let (depth, iNdEx) ← skipValue data.length depth (wire % 8) rest
        if 2 ^ 63 ≤ iNdEx then .error .invalidLength
        else if depth = 0 then return iNdEx
        else skipFrom data fuel depth iNdEx

def skip (data : Bytes) : Except Error Nat := skipFrom data data.length 0 0

/-- A field of any wire type, as another version of a message may have it. -/
inductive Unknown
  | varint (number : UInt32) (n : UInt64)
  | fixed64 (number : UInt32) (payload : Bytes) (h : payload.length = 8)
  | lengthDelimited (number : UInt32) (payload : Bytes)
  /-- The end of a group names its field again; nobody compares the two. -/
  | group (number : UInt32) (items : List Unknown) (last : UInt32)
  | fixed32 (number : UInt32) (payload : Bytes) (h : payload.length = 4)

namespace Unknown

def number : Unknown → UInt32
  | varint number _ => number
  | fixed64 number _ _ => number
  | lengthDelimited number _ => number
  | group number _ _ => number
  | fixed32 number _ _ => number

def wireType : Unknown → Nat
  | varint _ _ => 0
  | fixed64 _ _ _ => 1
  | lengthDelimited _ _ => 2
  | group _ _ _ => 3
  | fixed32 _ _ _ => 5

mutual

def writeValue : Unknown → Bytes
  | .varint _ n => Foundation.varint n.toNat
  | .fixed64 _ payload _ => payload
  | .lengthDelimited _ payload =>
      Foundation.varint payload.length ++ payload
  | .group _ items last => writeItems items ++ tag last.toNat 4
  | .fixed32 _ payload _ => payload

def writeItems : List Unknown → Bytes
  | [] => []
  | item :: rest =>
      tag item.number.toNat item.wireType ++ writeValue item ++ writeItems rest

end

def write (u : Unknown) : Bytes :=
  tag u.number.toNat u.wireType ++ u.writeValue

mutual

def turns : Unknown → Nat
  | .varint _ _ => 1
  | .fixed64 _ _ _ => 1
  | .lengthDelimited _ _ => 1
  | .group _ items _ => turnsOf items + 2
  | .fixed32 _ _ _ => 1

def turnsOf : List Unknown → Nat
  | [] => 0
  | item :: rest => turnsOf rest + item.turns

end

theorem wireType_lt (u : Unknown) : u.wireType < 8 := by
  cases u <;> simp [wireType]

end Unknown

theorem length_tag_pos (field wireType : Nat) :
    0 < (tag field wireType).length := by
  unfold tag
  rw [length_varint]
  exact sov_pos _

theorem readVarint_tag {wireType : Nat} (number : UInt32)
    (hwire : wireType < 8) (rest : Bytes) :
    readVarint (tag number.toNat wireType ++ rest) =
      .ok (number.toNat * 8 + wireType, rest) := by
  have hnumber : number.toNat < 2 ^ 32 := UInt32.toNat_lt number
  exact readVarint_varint (by omega) rest

theorem length_sub_of_drop {data part rest : Bytes} {i : Nat}
    (hi : i ≤ data.length) (h : data.drop i = part ++ rest) :
    data.length - rest.length = i + part.length := by
  have hlength := congrArg List.length h
  rw [List.length_drop, List.length_append] at hlength
  omega

theorem drop_add_of_drop {data part rest : Bytes} {i : Nat}
    (h : data.drop i = part ++ rest) :
    data.drop (i + part.length) = rest := by
  rw [← List.drop_drop, h, List.drop_left]

theorem skipFrom_tag {data rest : Bytes} {fuel depth i depth' i' wireType : Nat}
    {number : UInt32} (hwire : wireType < 8)
    (h : data.drop i = tag number.toNat wireType ++ rest)
    (hvalue : skipValue data.length depth wireType rest = .ok (depth', i'))
    (hi' : i' < 2 ^ 63) :
    skipFrom data (fuel + 1) depth i =
      if depth' = 0 then .ok i' else skipFrom data fuel depth' i' := by
  have hlt : i < data.length := by
    by_contra hge
    rw [List.drop_of_length_le (by omega)] at h
    have hpos := length_tag_pos number.toNat wireType
    rw [(List.append_eq_nil_iff.mp h.symm).1] at hpos
    exact absurd hpos (by simp)
  rw [skipFrom, if_neg (by omega), h, readVarint_tag number hwire, ok_bind]
  simp only [Nat.mul_add_mod_self_right, Nat.mod_eq_of_lt hwire, hvalue,
    ok_bind, pure, Except.pure]
  rw [if_neg (by omega)]

namespace Unknown

variable {data rest : Bytes} {fuel depth i : Nat}

theorem skipValue_of_flat {l : Nat} {u : Unknown} (hflat : u.turns = 1)
    (hl : l < 2 ^ 63) (h : (u.writeValue ++ rest).length ≤ l) :
    skipValue l depth u.wireType (u.writeValue ++ rest) =
      .ok (depth, l - rest.length) := by
  rw [List.length_append] at h
  cases u with
  | varint number n =>
      have hn : n.toNat < 128 ^ (9 + 1) := by
        have := UInt64.toNat_lt n
        omega
      simp only [wireType, writeValue, skipValue, uvarint_varint hn, ok_bind,
        pure, Except.pure]
  | fixed64 number payload hpayload =>
      simp only [writeValue, hpayload] at h
      simp only [wireType, writeValue, skipValue, List.length_append, hpayload,
        pure, Except.pure, Except.ok.injEq, Prod.mk.injEq, true_and]
      omega
  | lengthDelimited number payload =>
      simp only [writeValue, List.length_append] at h
      simp only [wireType, writeValue, List.append_assoc, skipValue,
        readVarint_varint (n := payload.length) (by omega), ok_bind,
        List.length_append, pure, Except.pure]
      rw [if_neg (by omega)]
      simp only [Except.ok.injEq, Prod.mk.injEq, true_and]
      omega
  | group number items last =>
      rw [turns] at hflat
      omega
  | fixed32 number payload hpayload =>
      simp only [writeValue, hpayload] at h
      simp only [wireType, writeValue, skipValue, List.length_append, hpayload,
        pure, Except.pure, Except.ok.injEq, Prod.mk.injEq, true_and]
      omega

theorem skipFrom_of_flat {u : Unknown} (hflat : u.turns = 1)
    (hl : data.length < 2 ^ 63) (hi : i ≤ data.length)
    (h : data.drop i = u.write ++ rest) :
    skipFrom data (fuel + 1) depth i =
      if depth = 0 then .ok (i + u.write.length)
      else skipFrom data fuel depth (i + u.write.length) := by
  have hend := length_sub_of_drop hi h
  rw [write, List.append_assoc] at h
  have hafter := drop_add_of_drop h
  have hroom : (u.writeValue ++ rest).length ≤ data.length := by
    rw [← hafter, List.length_drop]
    omega
  have hvalue : skipValue data.length depth u.wireType (u.writeValue ++ rest) =
      .ok (depth, data.length - rest.length) :=
    skipValue_of_flat hflat hl hroom
  rw [skipFrom_tag u.wireType_lt h hvalue (by omega), hend]

mutual

/-- A whole field is passed over, whatever groups it is of and in. -/
theorem skipFrom_write : ∀ (u : Unknown) {data rest : Bytes}
    {fuel depth i : Nat}, data.length < 2 ^ 63 → i ≤ data.length →
    data.drop i = u.write ++ rest →
    skipFrom data (fuel + u.turns) depth i =
      if depth = 0 then .ok (i + u.write.length)
      else skipFrom data fuel depth (i + u.write.length)
  | .varint number n, _, _, _, _, _, hl, hi, h =>
      skipFrom_of_flat (u := .varint number n) rfl hl hi h
  | .fixed64 number payload hpayload, _, _, _, _, _, hl, hi, h =>
      skipFrom_of_flat (u := .fixed64 number payload hpayload) rfl hl hi h
  | .lengthDelimited number payload, _, _, _, _, _, hl, hi, h =>
      skipFrom_of_flat (u := .lengthDelimited number payload) rfl hl hi h
  | .fixed32 number payload hpayload, _, _, _, _, _, hl, hi, h =>
      skipFrom_of_flat (u := .fixed32 number payload hpayload) rfl hl hi h
  | .group number items last, data, rest, fuel, depth, i, hl, hi, h => by
      have hend := length_sub_of_drop hi h
      simp only [write, Unknown.number, wireType, writeValue,
        List.append_assoc] at h
      have hstart := length_sub_of_drop hi h
      have hitems := drop_add_of_drop h
      have hmiddle : i + (tag number.toNat 3).length ≤ data.length := by omega
      have hstop := drop_add_of_drop hitems
      have hinner := length_sub_of_drop hmiddle hitems
      rw [show fuel + (group number items last).turns =
        fuel + 1 + turnsOf items + 1 by rw [turns]; omega,
        skipFrom_tag (show 3 < 8 by decide) h rfl (by omega),
        if_neg (by omega), hstart,
        skipFrom_writeItems items (by omega) hl hmiddle hitems,
        skipFrom_tag (show 4 < 8 by decide) hstop rfl (by omega),
        Nat.add_sub_cancel, hend]

theorem skipFrom_writeItems : ∀ (items : List Unknown) {data rest : Bytes}
    {fuel depth i : Nat}, 0 < depth → data.length < 2 ^ 63 →
    i ≤ data.length → data.drop i = writeItems items ++ rest →
    skipFrom data (fuel + turnsOf items) depth i =
      skipFrom data fuel depth (i + (writeItems items).length)
  | [], _, _, _, _, _, _, _, _, _ => by
      simp [turnsOf, writeItems]
  | item :: items, data, rest, fuel, depth, i, hdepth, hl, hi, h => by
      have hwrite : writeItems (item :: items) =
          item.write ++ writeItems items := by
        rw [writeItems, write]
      rw [hwrite, List.append_assoc] at h
      have hafter := drop_add_of_drop h
      have hend := length_sub_of_drop hi h
      rw [turnsOf, ← Nat.add_assoc, skipFrom_write item hl hi h,
        if_neg (by omega),
        skipFrom_writeItems items hdepth hl (by omega) hafter, hwrite,
        List.length_append, Nat.add_assoc]

end

mutual

theorem turns_le_length : ∀ u : Unknown, u.turns ≤ u.write.length
  | .varint number n => by
      have := length_tag_pos number.toNat 0
      simp only [turns, write, Unknown.number, wireType, List.length_append]
      omega
  | .fixed64 number payload _ => by
      have := length_tag_pos number.toNat 1
      simp only [turns, write, Unknown.number, wireType, List.length_append]
      omega
  | .lengthDelimited number payload => by
      have := length_tag_pos number.toNat 2
      simp only [turns, write, Unknown.number, wireType, List.length_append]
      omega
  | .group number items last => by
      have hstart := length_tag_pos number.toNat 3
      have hstop := length_tag_pos last.toNat 4
      have hitems := turnsOf_le_length items
      simp only [turns, write, Unknown.number, wireType, writeValue,
        List.length_append]
      omega
  | .fixed32 number payload _ => by
      have := length_tag_pos number.toNat 5
      simp only [turns, write, Unknown.number, wireType, List.length_append]
      omega

theorem turnsOf_le_length : ∀ items : List Unknown,
    turnsOf items ≤ (writeItems items).length
  | [] => by simp [turnsOf]
  | item :: items => by
      have hitem := turns_le_length item
      have hitems := turnsOf_le_length items
      simp only [write, List.length_append] at hitem
      simp only [turnsOf, writeItems, List.length_append]
      omega

end

theorem skip_write (u : Unknown) {rest : Bytes}
    (hl : (u.write ++ rest).length < 2 ^ 63) :
    skip (u.write ++ rest) = .ok u.write.length := by
  have hturns := u.turns_le_length
  have hfuel : (u.write ++ rest).length =
      (u.write ++ rest).length - u.turns + u.turns := by
    rw [List.length_append]
    omega
  unfold skip
  rw [hfuel, skipFrom_write u hl (Nat.zero_le _) (List.drop_zero), if_pos rfl,
    Nat.zero_add]

end Unknown

end IreBlockchain.Foundation.Wire
