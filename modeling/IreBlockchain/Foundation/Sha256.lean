import IreBlockchain.Foundation.ByteTexts
import Mathlib.Data.List.GetD

/-!
# SHA-256

The hash function of FIPS 180-4 on messages of whole bytes.  A message is padded
to full blocks of sixteen words, and each block is mixed into the hash value in
64 rounds.  A round can be taken back if its word is known.
-/

namespace IreBlockchain.Foundation

namespace Sha256

abbrev Word := BitVec 32

/-! ## The functions of words -/

def ch (x y z : Word) : Word := (x &&& y) ^^^ (~~~x &&& z)

def maj (x y z : Word) : Word := (x &&& y) ^^^ (x &&& z) ^^^ (y &&& z)

def bigSigma0 (x : Word) : Word :=
  x.rotateRight 2 ^^^ x.rotateRight 13 ^^^ x.rotateRight 22

def bigSigma1 (x : Word) : Word :=
  x.rotateRight 6 ^^^ x.rotateRight 11 ^^^ x.rotateRight 25

def smallSigma0 (x : Word) : Word :=
  x.rotateRight 7 ^^^ x.rotateRight 18 ^^^ (x >>> 3)

def smallSigma1 (x : Word) : Word :=
  x.rotateRight 17 ^^^ x.rotateRight 19 ^^^ (x >>> 10)

def roundConstants : List Word :=
  [0x428a2f98, 0x71374491, 0xb5c0fbcf, 0xe9b5dba5, 0x3956c25b,
   0x59f111f1, 0x923f82a4, 0xab1c5ed5, 0xd807aa98, 0x12835b01,
   0x243185be, 0x550c7dc3, 0x72be5d74, 0x80deb1fe, 0x9bdc06a7,
   0xc19bf174, 0xe49b69c1, 0xefbe4786, 0x0fc19dc6, 0x240ca1cc,
   0x2de92c6f, 0x4a7484aa, 0x5cb0a9dc, 0x76f988da, 0x983e5152,
   0xa831c66d, 0xb00327c8, 0xbf597fc7, 0xc6e00bf3, 0xd5a79147,
   0x06ca6351, 0x14292967, 0x27b70a85, 0x2e1b2138, 0x4d2c6dfc,
   0x53380d13, 0x650a7354, 0x766a0abb, 0x81c2c92e, 0x92722c85,
   0xa2bfe8a1, 0xa81a664b, 0xc24b8b70, 0xc76c51a3, 0xd192e819,
   0xd6990624, 0xf40e3585, 0x106aa070, 0x19a4c116, 0x1e376c08,
   0x2748774c, 0x34b0bcb5, 0x391c0cb3, 0x4ed8aa4a, 0x5b9cca4f,
   0x682e6ff3, 0x748f82ee, 0x78a5636f, 0x84c87814, 0x8cc70208,
   0x90befffa, 0xa4506ceb, 0xbef9a3f7, 0xc67178f2]

/-! ## Hash values -/

structure HashValue where
  a : Word
  b : Word
  c : Word
  d : Word
  e : Word
  f : Word
  g : Word
  h : Word
  deriving DecidableEq

namespace HashValue

def initial : HashValue :=
  ⟨0x6a09e667, 0xbb67ae85, 0x3c6ef372, 0xa54ff53a, 0x510e527f, 0x9b05688c,
    0x1f83d9ab, 0x5be0cd19⟩

def words (v : HashValue) : List Word := [v.a, v.b, v.c, v.d, v.e, v.f, v.g, v.h]

def add (v u : HashValue) : HashValue :=
  ⟨v.a + u.a, v.b + u.b, v.c + u.c, v.d + u.d, v.e + u.e, v.f + u.f, v.g + u.g,
    v.h + u.h⟩

def round (v : HashValue) (k w : Word) : HashValue :=
  let temp1 := v.h + bigSigma1 v.e + ch v.e v.f v.g + k + w
  let temp2 := bigSigma0 v.a + maj v.a v.b v.c
  ⟨temp1 + temp2, v.a, v.b, v.c, v.d + temp1, v.e, v.f, v.g⟩

def unround (v : HashValue) (k w : Word) : HashValue :=
  let temp1 := v.a - (bigSigma0 v.b + maj v.b v.c v.d)
  ⟨v.b, v.c, v.d, v.e - temp1, v.f, v.g, v.h,
    temp1 - w - k - ch v.f v.g v.h - bigSigma1 v.f⟩

end HashValue

theorem HashValue.unround_round (v : HashValue) (k w : Word) :
    (v.round k w).unround k w = v := by
  simp only [round, unround, BitVec.add_sub_cancel]

theorem HashValue.add_left_cancel {v u u' : HashValue} (h : v.add u = v.add u') :
    u = u' := by
  simp only [add, mk.injEq, BitVec.add_right_inj] at h
  obtain ⟨ha, hb, hc, hd, he, hf, hg, hh⟩ := h
  cases u
  cases u'
  simp_all

/-! ## Blocks -/

def nextWord (w : List Word) : Word :=
  let t := w.length
  smallSigma1 (w.getD (t - 2) 0) + w.getD (t - 7) 0 +
    smallSigma0 (w.getD (t - 15) 0) + w.getD (t - 16) 0

/-- The words of a block and the next `n` words of its schedule. -/
def schedule (block : List Word) : Nat → List Word
  | 0 => block
  | n + 1 => schedule block n ++ [nextWord (schedule block n)]

def roundWord (block : List Word) (i : Nat) : Word := (schedule block 48).getD i 0

def rounds (block : List Word) (v : HashValue) : Nat → HashValue
  | 0 => v
  | n + 1 =>
      (rounds block v n).round (roundConstants.getD n 0) (roundWord block n)

def unrounds (block : List Word) (m : Nat) : Nat → HashValue → HashValue
  | 0, v => v
  | n + 1, v =>
      unrounds block m n
        (v.unround (roundConstants.getD (m + n) 0) (roundWord block (m + n)))

def compress (v : HashValue) (block : List Word) : HashValue :=
  v.add (rounds block v 64)

def hashBlocks (v : HashValue) : Nat → List Word → HashValue
  | 0, _ => v
  | n + 1, words => hashBlocks (compress v (words.take 16)) n (words.drop 16)

@[simp] theorem length_schedule (block : List Word) (n : Nat) :
    (schedule block n).length = block.length + n := by
  induction n with
  | zero => rfl
  | succ n ih => simp [schedule, ih, Nat.add_assoc]

theorem getD_schedule (block : List Word) {n m i : Nat} (hnm : n ≤ m)
    (hi : i < block.length + n) :
    (schedule block m).getD i 0 = (schedule block n).getD i 0 := by
  induction m, hnm using Nat.le_induction with
  | base => rfl
  | succ m hnm ih =>
      have hlt : i < (schedule block m).length := by
        rw [length_schedule]
        omega
      rw [schedule, List.getD_append _ _ _ _ hlt, ih]

theorem roundWord_eq (block : List Word) {n i : Nat} (hn : n ≤ 48)
    (hi : i < block.length + n) :
    roundWord block i = (schedule block n).getD i 0 :=
  getD_schedule block hn hi

theorem roundWord_length_add (block : List Word) {n : Nat} (hn : n < 48) :
    roundWord block (block.length + n) = nextWord (schedule block n) := by
  have hlt : block.length + n < block.length + (n + 1) := by omega
  have hlen : block.length + n = (schedule block n).length :=
    (length_schedule block n).symm
  rw [roundWord_eq block hn hlt, schedule, hlen, List.getD_append_right _ _ _ _ le_rfl]
  simp

theorem unrounds_rounds (block : List Word) (v : HashValue) (m n : Nat) :
    unrounds block m n (rounds block v (m + n)) = rounds block v m := by
  induction n with
  | zero => rfl
  | succ n ih =>
      rw [← Nat.add_assoc, rounds, unrounds, HashValue.unround_round, ih]

theorem hashBlocks_append (v : HashValue) {n m : Nat} {words : List Word}
    (hlen : words.length = 16 * n) (more : List Word) :
    hashBlocks v (n + m) (words ++ more) =
      hashBlocks (hashBlocks v n words) m more := by
  induction n generalizing v words with
  | zero =>
      obtain rfl := List.length_eq_zero_iff.mp hlen
      rw [Nat.zero_add]
      rfl
  | succ n ih =>
      have hle : 16 ≤ words.length := by omega
      have hrest : (words.drop 16).length = 16 * n := by
        rw [List.length_drop]
        omega
      rw [Nat.succ_add, hashBlocks, hashBlocks, List.take_append_of_le_length hle,
        List.drop_append_of_le_length hle, ih _ hrest]

/-! ## Messages -/

def ofBytes (a b c d : UInt8) : Word :=
  BitVec.ofNat 32 a.toNat <<< 24 ||| BitVec.ofNat 32 b.toNat <<< 16 |||
    BitVec.ofNat 32 c.toNat <<< 8 ||| BitVec.ofNat 32 d.toNat

def toWords : Bytes → List Word
  | a :: b :: c :: d :: rest => ofBytes a b c d :: toWords rest
  | _ => []

def toBytes (w : Word) : Bytes :=
  [UInt8.ofBitVec (w.extractLsb' 24 8), UInt8.ofBitVec (w.extractLsb' 16 8),
    UInt8.ofBitVec (w.extractLsb' 8 8), UInt8.ofBitVec (w.extractLsb' 0 8)]

/-- The number of zeros that leave room for the length at the end of a block. -/
def zeros (length : Nat) : Nat := (64 - (length + 9) % 64) % 64

def padFront (message : Bytes) : Bytes :=
  message ++ 0x80 :: List.replicate (zeros message.length) 0

/-- The words of the padded message; the length in bits is the last two. -/
def padded (message : Bytes) : List Word :=
  let bits := 8 * message.length
  toWords (padFront message) ++
    [BitVec.ofNat 32 (bits / 2 ^ 32), BitVec.ofNat 32 bits]

def hash (message : Bytes) : HashValue :=
  let words := padded message
  hashBlocks .initial (words.length / 16) words

/-! ## The padding fills blocks -/

theorem length_padFront (message : Bytes) :
    (padFront message).length = message.length + 1 + zeros message.length := by
  simp [padFront]
  omega

theorem length_padFront_mod (message : Bytes) :
    (padFront message).length % 64 = 56 := by
  rw [length_padFront, zeros]
  omega

theorem length_lt_of_no_word {bytes : Bytes}
    (h : ∀ a b c d rest, bytes = a :: b :: c :: d :: rest → False) :
    bytes.length < 4 := by
  rcases bytes with _ | ⟨a, _ | ⟨b, _ | ⟨c, _ | ⟨d, rest⟩⟩⟩⟩
  · simp
  · simp
  · simp
  · simp
  · exact (h a b c d rest rfl).elim

theorem length_toWords (bytes : Bytes) :
    (toWords bytes).length = bytes.length / 4 := by
  induction bytes using toWords.induct with
  | case1 a b c d rest ih =>
      rw [toWords, List.length_cons, ih]
      simp only [List.length_cons]
      omega
  | case2 bytes hshort =>
      rw [toWords.eq_2 bytes hshort]
      have hlt := length_lt_of_no_word hshort
      simp only [List.length_nil]
      omega

theorem toWords_append {bytes : Bytes} (hlen : bytes.length % 4 = 0)
    (more : Bytes) : toWords (bytes ++ more) = toWords bytes ++ toWords more := by
  induction bytes using toWords.induct with
  | case1 a b c d rest ih =>
      have hrest : rest.length % 4 = 0 := by
        simp only [List.length_cons] at hlen
        omega
      simp only [List.cons_append, toWords, ih hrest]
  | case2 bytes hshort =>
      have hlt := length_lt_of_no_word hshort
      have hnil : bytes = [] := List.eq_nil_of_length_eq_zero (by omega)
      rw [hnil]
      rfl

theorem length_padded (message : Bytes) :
    (padded message).length = 16 * ((padded message).length / 16) := by
  have hmod := length_padFront_mod message
  simp only [padded, List.length_append, length_toWords, List.length_cons,
    List.length_nil]
  omega

theorem toBytes_injective : Function.Injective toBytes := by
  intro w u h
  simp only [toBytes, List.cons.injEq, UInt8.ofBitVec.injEq,
    ← BitVec.toNat_inj, BitVec.extractLsb'_toNat, Nat.shiftRight_eq_div_pow] at h
  apply BitVec.eq_of_toNat_eq
  have hw := w.isLt
  have hu := u.isLt
  omega

theorem flatMap_toBytes_injective {words words' : List Word}
    (h : words.flatMap toBytes = words'.flatMap toBytes) : words = words' := by
  induction words generalizing words' with
  | nil =>
      cases words' with
      | nil => rfl
      | cons u words' => cases h
  | cons w words ih =>
      cases words' with
      | nil => cases h
      | cons u words' =>
          simp only [List.flatMap_cons] at h
          obtain ⟨hfirst, hrest⟩ := List.append_inj h rfl
          rw [toBytes_injective hfirst, ih hrest]

theorem hexText_words_injective {v u : HashValue}
    (h : hexText (v.words.flatMap toBytes) = hexText (u.words.flatMap toBytes)) :
    v = u := by
  have hbytes := congrArg readHexBytes h
  rw [readHexBytes_hexText, readHexBytes_hexText] at hbytes
  have hwords := flatMap_toBytes_injective hbytes
  cases v
  cases u
  simpa [HashValue.words] using hwords

end Sha256

def sha256Hex (message : Bytes) : Text :=
  hexText ((Sha256.hash message).words.flatMap Sha256.toBytes)

end IreBlockchain.Foundation
