import IreBlockchain.Brokers.Sha256Pure

/-!
# Strings beyond 31 bits

From the place `2 ^ 31` on, `sha256pure` computes a negative index for a code
unit and loses it.  Where the padding begins a block there, the last block has
two words only, and what it adds to the hash is always the same.
-/

namespace IreBlockchain.Brokers.Sha256Pure

open IreBlockchain.Foundation
open Sha256 (HashValue Word)

/-! ## A block of two words -/

theorem length_round {hash : List JsNum} (h : hash.length = 8) (ki wi : JsNum) :
    (round hash ki wi).length = 8 := by
  simp [round, setElement, h]

theorem length_rounds (k w : List JsNum) {hash : List JsNum} (h : hash.length = 8)
    (n : Nat) : (rounds k w hash n).2.length = 8 := by
  induction n with
  | zero => exact h
  | succ n ih => exact length_round ih _ _

theorem round_nan (a b c d e f g h ki : JsNum) :
    round [a, b, c, d, e, f, g, h] ki .nan = [0, a, b, c, 0, e, f, g] := by
  simp only [round, JsNum.add_nan, JsNum.nan_add]
  rfl

theorem round_nan_four {hash : List JsNum} (h : hash.length = 8)
    (k0 k1 k2 k3 : JsNum) :
    round (round (round (round hash k0 .nan) k1 .nan) k2 .nan) k3 .nan =
      [0, 0, 0, 0, 0, 0, 0, 0] := by
  rcases hash with _ | ⟨a, _ | ⟨b, _ | ⟨c, _ | ⟨d, _ | ⟨e, _ | ⟨f, _ | ⟨g, _ | ⟨i,
    _ | ⟨x, rest⟩⟩⟩⟩⟩⟩⟩⟩⟩ <;> simp at h
  simp only [round_nan]

theorem rounds_fst (k k' w hash hash' : List JsNum) (n : Nat) :
    (rounds k w hash n).1 = (rounds k' w hash' n).1 := by
  induction n with
  | zero => rfl
  | succ n ih => simp only [rounds, ih]

theorem rounds_congr {k w hash hash' : List JsNum} {m : Nat}
    (h : rounds k w hash m = rounds k w hash' m) (n : Nat) :
    rounds k w hash (m + n) = rounds k w hash' (m + n) := by
  induction n with
  | zero => exact h
  | succ n ih => rw [← Nat.add_assoc, rounds, rounds, ih]

def lengthWords : List JsNum := [4, .int (2 ^ 34 + 8 : Nat)]

theorem scheduleWord_lengthWords (k hash : List JsNum) :
    ∀ n < 6, 2 ≤ n → scheduleWord (rounds k lengthWords hash n).1 n = .nan := by
  have hall : ∀ n < 6, 2 ≤ n →
      scheduleWord (rounds [] lengthWords [] n).1 n = .nan := by decide +kernel
  intro n hn hge
  rw [rounds_fst k [] lengthWords hash [], hall n hn hge]

def zeroHash : List JsNum := [0, 0, 0, 0, 0, 0, 0, 0]

theorem rounds_snd_succ (k w hash : List JsNum) (n : Nat) :
    (rounds k w hash (n + 1)).2 =
      round (rounds k w hash n).2 (elementAt k n)
        (scheduleWord (rounds k w hash n).1 n) := rfl

theorem rounds_six (k : List JsNum) {hash : List JsNum} (h : hash.length = 8) :
    (rounds k lengthWords hash 6).2 = zeroHash := by
  have hnan := scheduleWord_lengthWords k hash
  rw [rounds_snd_succ, hnan 5 (by omega) (by omega), rounds_snd_succ,
    hnan 4 (by omega) (by omega), rounds_snd_succ, hnan 3 (by omega) (by omega),
    rounds_snd_succ, hnan 2 (by omega) (by omega)]
  exact round_nan_four (length_rounds k lengthWords h 2) _ _ _ _

theorem rounds_lengthWords (k : List JsNum) {hash : List JsNum}
    (h : hash.length = 8) :
    (rounds k lengthWords hash 64).2 = (rounds k lengthWords zeroHash 64).2 := by
  have hsix : rounds k lengthWords hash 6 = rounds k lengthWords zeroHash 6 :=
    Prod.ext (rounds_fst k k lengthWords hash zeroHash 6)
      ((rounds_six k h).trans (rounds_six k rfl).symm)
  exact congrArg Prod.snd (rounds_congr hsix 58)

def lastHash : HashValue :=
  ⟨0xf90271bf, 0x465e04fa, 0xd892a2c3, 0xef52f4d6, 0x8fcc8b78, 0x64e73966,
    0xfedf26f3, 0x9a82348f⟩

theorem rounds_zeroHash :
    (rounds (Sha256.roundConstants.map JsNum.ofInt32) lengthWords zeroHash 64).2 =
      lastHash.words.map JsNum.ofInt32 := by
  decide +kernel

theorem hasBits_rounds_lengthWords (T : Sha256Tables) {hash : List JsNum}
    (h : hash.length = 8) :
    HasBits (rounds T.k lengthWords hash 64).2 lastHash.words := by
  rw [rounds_lengthWords T.k h, T.k_eq, rounds_zeroHash]
  exact hasBits_map_ofInt32 _

/-! ## A byte beyond the place -/

/-- The last block of the standard, behind full blocks and one more byte. -/
def lastBlock (b : UInt8) : List Word :=
  Sha256.ofBytes b 0x80 0 0 :: (List.replicate 13 0 ++ [4, 8])

section LongText

variable {n : Nat} {bytes : Bytes} (hn : 64 * n = 2 ^ 31)
  (hlen : bytes.length = 64 * n) (b : UInt8)

include hn hlen

theorem padFront_long :
    Sha256.padFront (bytes ++ [b]) = bytes ++ b :: 0x80 :: List.replicate 54 0 := by
  have hzeros : Sha256.zeros (bytes ++ [b]).length = 54 := by
    rw [List.length_append, List.length_singleton, Sha256.zeros]
    omega
  rw [Sha256.padFront, hzeros, List.append_assoc]
  rfl

theorem padded_long :
    Sha256.padded (bytes ++ [b]) = Sha256.toWords bytes ++ lastBlock b := by
  have hbits : 8 * (bytes ++ [b]).length = 2 ^ 34 + 8 := by
    rw [List.length_append, List.length_singleton]
    omega
  have hmod : bytes.length % 4 = 0 := by omega
  rw [Sha256.padded, padFront_long hn hlen, hbits, Sha256.toWords_append hmod,
    List.append_assoc]
  rfl

theorem paddedWords_long :
    paddedWords ((bytes ++ [b]).map UInt8.toUInt16) =
      (Sha256.toWords bytes).map JsNum.ofInt32 ++ lengthWords := by
  have hbits : ((bytes ++ [b]).map UInt8.toUInt16).length * 8 = 2 ^ 34 + 8 := by
    rw [List.length_map, List.length_append, List.length_singleton]
    omega
  have hfront := packFrom_toWords [] bytes (by omega)
    (by rw [hlen, List.length_nil]; omega)
  rw [List.nil_append, List.length_nil, Nat.mul_zero] at hfront
  have htail : (bytes.map UInt8.toUInt16).length = 2 ^ 31 := by
    rw [List.length_map, hlen, hn]
  simp only [paddedWords, padZeros_padFront, padFront_long hn hlen, hbits]
  rw [List.map_append, packFrom_append, hfront, htail, Nat.zero_add,
    packFrom_of_ge _ le_rfl (by simp)]
  rfl

theorem length_toWords_long : (Sha256.toWords bytes).length = 16 * n := by
  rw [Sha256.length_toWords]
  omega

theorem sha256pure_long (T : Sha256Tables) :
    sha256pure T ((bytes ++ [b]).map UInt8.toUInt16) =
      hexText (((Sha256.hashBlocks .initial n (Sha256.toWords bytes)).add
        lastHash).words.flatMap Sha256.toBytes) := by
  have hwords := length_toWords_long hn hlen
  have hlength : ((Sha256.toWords bytes).map JsNum.ofInt32).length = 16 * n := by
    rw [List.length_map, hwords]
  have htake : ((((Sha256.toWords bytes).map JsNum.ofInt32 ++ lengthWords).drop 0).take
      (16 * n)) = (Sha256.toWords bytes).map JsNum.ofInt32 := by
    rw [List.drop_zero, List.take_left' hlength]
  have hlast : (((Sha256.toWords bytes).map JsNum.ofInt32 ++ lengthWords).drop
      (0 + 16 * n)).take 16 = lengthWords := by
    rw [Nat.zero_add, List.drop_left' hlength]
    rfl
  obtain ⟨hash, hbits, hloop⟩ := hashBlocks_full (hasBits_k T) (hasBits_h T)
    (htake.symm ▸ hasBits_map_ofInt32 _) hwords
  have hmore : 0 + 16 * n <
      ((Sha256.toWords bytes).map JsNum.ofInt32 ++ lengthWords).length := by
    rw [List.length_append, hlength, lengthWords, List.length_cons]
    omega
  have hdone : ((Sha256.toWords bytes).map JsNum.ofInt32 ++ lengthWords).length ≤
      0 + 16 * n + 16 := by
    rw [List.length_append, hlength, lengthWords]
    simp
  have hblock := hasBits_hashBlock_of_rounds hbits
    (hasBits_rounds_lengthWords T hbits.length_eq)
  rw [sha256pure, paddedWords_long hn hlen, hloop, hashBlocks, if_pos hmore, hlast,
    hashBlocks_of_length_le hdone]
  apply resultText_of_hasBits
  rw [take_of_hasBits hblock]
  exact hblock

theorem sha256Hex_long :
    sha256Hex (bytes ++ [b]) =
      hexText ((Sha256.compress
        (Sha256.hashBlocks .initial n (Sha256.toWords bytes)) (lastBlock b)).words.flatMap
          Sha256.toBytes) := by
  have hwords := length_toWords_long hn hlen
  have hlast : (lastBlock b).length = 16 := rfl
  have hcount : (Sha256.padded (bytes ++ [b])).length / 16 = n + 1 := by
    rw [padded_long hn hlen, List.length_append, hwords, hlast]
    omega
  simp only [sha256Hex, Sha256.hash, hcount]
  rw [padded_long hn hlen, Sha256.hashBlocks_append _ hwords]
  rfl

/-- Where the code follows the standard, the rounds can be taken back. -/
theorem unrounds_lastHash (T : Sha256Tables)
    (h : sha256pure T ((bytes ++ [b]).map UInt8.toUInt16) =
      sha256Hex (bytes ++ [b])) :
    Sha256.unrounds (lastBlock b) 0 64 lastHash =
      Sha256.hashBlocks .initial n (Sha256.toWords bytes) := by
  rw [sha256pure_long hn hlen, sha256Hex_long hn hlen] at h
  have hadd := HashValue.add_left_cancel (Sha256.hexText_words_injective h)
  have hback := Sha256.unrounds_rounds (lastBlock b)
    (Sha256.hashBlocks .initial n (Sha256.toWords bytes)) 0 64
  rw [hadd]
  exact hback

end LongText

theorem unrounds_differ :
    Sha256.unrounds (lastBlock 0x61) 0 64 lastHash ≠
      Sha256.unrounds (lastBlock 0x62) 0 64 lastHash := by
  decide +kernel

end IreBlockchain.Brokers.Sha256Pure
