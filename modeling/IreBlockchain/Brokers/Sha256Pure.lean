import IreBlockchain.Foundation.JsNumbers
import IreBlockchain.Foundation.Sha256
import IreBlockchain.Foundation.Protobuf
import IreBlockchain.Brokers.Traits

/-!
# The browser's hash

`sha256pure` of `mandates.js` computes SHA-256 with the numbers and arrays of the
browser's language.  It packs the code units of its argument into words and runs
the rounds on an array that grows at the front and loses its last element.
-/

namespace IreBlockchain.Brokers

open IreBlockchain.Foundation

/-- The tables `sha256pure.h` and `sha256pure.k`, as they are once computed. -/
structure Sha256Tables where
  h : List JsNum
  k : List JsNum
  take_h : h.take 8 = Sha256.HashValue.initial.words.map JsNum.ofInt32
  k_eq : k = Sha256.roundConstants.map JsNum.ofInt32

namespace Sha256Pure

def rr (value : JsNum) (amount : Nat) : JsNum :=
  value.shr amount ||| value.shl (32 - amount)

/-! ## The words of the padded string -/

def padZeros (ascii : JsString) : JsString :=
  if ascii.length % 64 = 56 then ascii else padZeros (ascii ++ [0])
termination_by (120 - ascii.length % 64) % 64
decreasing_by
  rw [List.length_append]
  simp only [List.length_singleton]
  omega

/-- `words[i >> 2] |= j << ((3 - i) % 4) * 8` -/
def packUnit (words : List JsNum) (i : Nat) (j : UInt16) : List JsNum :=
  let index := ((JsNum.int i).sar 2).toInt32.toInt
  let count := (3 - (i : Int)).tmod 4 * 8
  setElement words index (elementAt words index ||| (JsNum.int j.toNat).shl count)

def packFrom (words : List JsNum) (i : Nat) (units : JsString) : List JsNum :=
  (units.zipIdx i).foldl (fun words unit => packUnit words unit.2 unit.1) words

theorem packFrom_cons (words : List JsNum) (i : Nat) (j : UInt16)
    (rest : JsString) :
    packFrom words i (j :: rest) = packFrom (packUnit words i j) (i + 1) rest := by
  simp only [packFrom, List.zipIdx_cons, List.foldl_cons]

def paddedWords (ascii : JsString) : List JsNum :=
  let asciiBitLength := ascii.length * 8
  let words := packFrom [] 0 (padZeros (ascii ++ [0x80]))
  words ++ [JsNum.int (asciiBitLength / 2 ^ 32 : Nat) ||| 0, JsNum.int asciiBitLength]

/-! ## The rounds -/

def scheduleWord (w : List JsNum) (i : Nat) : JsNum :=
  let w15 := elementAt w (i - 15)
  let w2 := elementAt w (i - 2)
  if i < 16 then elementAt w i
  else
    (elementAt w (i - 16) + (rr w15 7 ^^^ rr w15 18 ^^^ w15.shr 3) +
      elementAt w (i - 7) + (rr w2 17 ^^^ rr w2 19 ^^^ w2.shr 10)) ||| 0

/-- The turn `i` of the loop, with the word and the constant it adds. -/
def round (hash : List JsNum) (ki wi : JsNum) : List JsNum :=
  let a := elementAt hash 0
  let e := elementAt hash 4
  let temp1 := elementAt hash 7 + (rr e 6 ^^^ rr e 11 ^^^ rr e 25) +
    ((e &&& elementAt hash 5) ^^^ (~~~e &&& elementAt hash 6)) + ki + wi
  let temp2 := (rr a 2 ^^^ rr a 13 ^^^ rr a 22) +
    ((a &&& elementAt hash 1) ^^^ (a &&& elementAt hash 2) ^^^
      (elementAt hash 1 &&& elementAt hash 2))
  let hash := ((temp1 + temp2) ||| 0) :: hash
  let hash := setElement hash 4 ((elementAt hash 4 + temp1) ||| 0)
  hash.dropLast

def rounds (k w hash : List JsNum) : Nat → List JsNum × List JsNum
  | 0 => (w, hash)
  | n + 1 =>
      let (w, hash) := rounds k w hash n
      let wi := scheduleWord w n
      (setElement w n wi, round hash (elementAt k n) wi)

def addOld (oldHash hash : List JsNum) (i : Nat) : List JsNum :=
  setElement hash i ((elementAt hash i + elementAt oldHash i) ||| 0)

def hashBlock (k oldHash w : List JsNum) : List JsNum :=
  (List.range 8).foldl (addOld oldHash) (rounds k w (oldHash.take 8) 64).2

def hashBlocks (k words hash : List JsNum) (j : Nat) : List JsNum :=
  if j < words.length then
    hashBlocks k words (hashBlock k hash ((words.drop j).take 16)) (j + 16)
  else hash
termination_by words.length - j

/-! ## The digest -/

def byteText (b : Nat) : Text :=
  (if b < 16 then ['0'] else []) ++ Nat.toDigits 16 b

def wordText (x : JsNum) : Text :=
  [3, 2, 1, 0].flatMap fun j => byteText ((x.sar (j * 8)) &&& 255).toInt32.toNat

def resultText (hash : List JsNum) : Text :=
  (List.range 8).flatMap fun i => wordText (elementAt hash i)

/-! ## Packing -/

theorem packIndex_of_lt {i : Nat} (h : i < 2 ^ 31) :
    ((JsNum.int i).sar 2).toInt32.toInt = ↑(i / 4) := by
  have hint : (BitVec.ofInt 32 (i : Int)).toInt = i :=
    BitVec.toInt_ofInt_eq_self (by decide) (by omega) (by omega)
  have hcount : JsNum.shiftCount 2 = 2 := rfl
  rw [JsNum.sar, JsNum.toInt32_ofInt32, BitVec.toInt_sshiftRight, hcount, JsNum.toInt32,
    hint, Int.shiftRight_eq_div_pow]
  omega

theorem packIndex_of_ge {i : Nat} (hge : 2 ^ 31 ≤ i) (hlt : i < 2 ^ 32) :
    ((JsNum.int i).sar 2).toInt32.toInt < 0 := by
  have hint : (BitVec.ofInt 32 (i : Int)).toInt = i - 2 ^ 32 := by
    rw [BitVec.toInt_ofInt, Int.bmod_def]
    omega
  have hcount : JsNum.shiftCount 2 = 2 := rfl
  rw [JsNum.sar, JsNum.toInt32_ofInt32, BitVec.toInt_sshiftRight, hcount, JsNum.toInt32,
    hint, Int.shiftRight_eq_div_pow]
  omega

theorem packCount (i : Nat) :
    JsNum.shiftCount ((3 - (i : Int)).tmod 4 * 8) = 24 - 8 * (i % 4) := by
  unfold JsNum.shiftCount
  rw [Int.tmod_eq_emod]
  split <;> omega

theorem packUnit_of_lt (words : List JsNum) {i : Nat} (h : i < 2 ^ 31) (b : UInt8) :
    packUnit words i b.toUInt16 = setElement words ↑(i / 4)
      (.ofInt32 ((words.getD (i / 4) .nan).toInt32 |||
        BitVec.ofNat 32 b.toNat <<< (24 - 8 * (i % 4)))) := by
  simp only [packUnit, packIndex_of_lt h, elementAt_natCast, JsNum.or_eq, JsNum.shl,
    packCount, JsNum.toInt32_ofInt32, JsNum.toInt32_natCast, UInt8.toNat_toUInt16]

theorem packUnit_of_ge (words : List JsNum) {i : Nat} (hge : 2 ^ 31 ≤ i)
    (hlt : i < 2 ^ 32) (j : UInt16) : packUnit words i j = words := by
  have hneg := packIndex_of_ge hge hlt
  simp only [packUnit, setElement_of_neg words hneg]

theorem packFrom_of_ge (words : List JsNum) {i : Nat} {units : JsString}
    (hge : 2 ^ 31 ≤ i) (hlt : i + units.length ≤ 2 ^ 32) :
    packFrom words i units = words := by
  induction units generalizing i with
  | nil => rfl
  | cons j rest ih =>
      rw [List.length_cons] at hlt
      have hi : i < 2 ^ 32 := by omega
      rw [packFrom_cons, packUnit_of_ge words hge hi]
      exact ih (by omega) (by omega)

theorem packFrom_append (words : List JsNum) (i : Nat) (front back : JsString) :
    packFrom words i (front ++ back) =
      packFrom (packFrom words i front) (i + front.length) back := by
  induction front generalizing words i with
  | nil => rfl
  | cons j front ih =>
      rw [List.cons_append, packFrom_cons, packFrom_cons, ih, List.length_cons,
        Nat.add_right_comm, Nat.add_assoc]

theorem packFrom_group (words : List JsNum) (a b c d : UInt8) (rest : JsString)
    (hlt : 4 * words.length + 4 ≤ 2 ^ 31) :
    packFrom words (4 * words.length)
        (a.toUInt16 :: b.toUInt16 :: c.toUInt16 :: d.toUInt16 :: rest) =
      packFrom (words ++ [.ofInt32 (Sha256.ofBytes a b c d)])
        (4 * words.length + 4) rest := by
  have hplace {r : Nat} (hr : r < 4) : (4 * words.length + r) / 4 = words.length := by
    omega
  have hmod {r : Nat} (hr : r < 4) : (4 * words.length + r) % 4 = r := by omega
  have hfirst : packUnit words (4 * words.length) a.toUInt16 =
      words ++ [.ofInt32 (BitVec.ofNat 32 a.toNat <<< 24)] := by
    have hzero : 4 * words.length / 4 = words.length := by omega
    have hnew : words.getD words.length .nan = .nan := by simp
    have htop : 24 - 8 * (4 * words.length % 4) = 24 := by omega
    rw [packUnit_of_lt _ (by omega), hzero, setElement_length, hnew, htop]
    exact congrArg (fun w => words ++ [.ofInt32 w]) BitVec.zero_or
  have hnext {r : Nat} (hr : r < 4) (w : Sha256.Word) (u : UInt8) :
      packUnit (words ++ [.ofInt32 w]) (4 * words.length + r) u.toUInt16 =
        words ++ [.ofInt32 (w ||| BitVec.ofNat 32 u.toNat <<< (24 - 8 * r))] := by
    have hlen : words.length < (words ++ [JsNum.ofInt32 w]).length := by simp
    rw [packUnit_of_lt _ (by omega), hplace hr, hmod hr, setElement_of_lt hlen]
    simp
  simp only [packFrom_cons, hfirst, Nat.add_assoc, Nat.reduceAdd]
  rw [hnext (by omega), hnext (by omega), hnext (by omega), Sha256.ofBytes]
  simp

theorem packFrom_toWords (words : List JsNum) (bytes : Bytes)
    (hmod : bytes.length % 4 = 0)
    (hlt : 4 * words.length + bytes.length ≤ 2 ^ 31) :
    packFrom words (4 * words.length) (bytes.map UInt8.toUInt16) =
      words ++ (Sha256.toWords bytes).map JsNum.ofInt32 := by
  induction bytes using Sha256.toWords.induct generalizing words with
  | case1 a b c d rest ih =>
      simp only [List.length_cons] at hmod hlt
      have hlen : (words ++ [JsNum.ofInt32 (Sha256.ofBytes a b c d)]).length =
          words.length + 1 := by simp
      have hrest := ih (words ++ [.ofInt32 (Sha256.ofBytes a b c d)]) (by omega)
        (by rw [hlen]; omega)
      rw [hlen, Nat.mul_add_one] at hrest
      simp only [List.map_cons]
      rw [packFrom_group words a b c d _ (by omega), hrest, Sha256.toWords,
        List.append_assoc]
      rfl
  | case2 bytes hshort =>
      have hshorter := Sha256.length_lt_of_no_word hshort
      have hnil : bytes = [] := List.eq_nil_of_length_eq_zero (by omega)
      simp [hnil, packFrom, Sha256.toWords]

/-! ## The functions of words -/

section Words

open Sha256 (Word bigSigma0 bigSigma1 smallSigma0 smallSigma1 ch maj)

variable {x y z : JsNum} {a b c : Word}

theorem is_rr (h : x.Is a) {n : Nat} (hn : 0 < n ∧ n < 32) :
    (rr x n).Is (a.rotateRight n) := by
  have hcount : 32 - (n : Int) = ↑(32 - n) := by omega
  rw [rr, hcount, BitVec.rotateRight_def, Nat.mod_eq_of_lt hn.2]
  exact (h.shr hn.2).or (h.shl (by omega))

theorem is_bigSigma0 (h : x.Is a) :
    (rr x 2 ^^^ rr x 13 ^^^ rr x 22).Is (bigSigma0 a) :=
  ((is_rr h (by omega)).xor (is_rr h (by omega))).xor (is_rr h (by omega))

theorem is_bigSigma1 (h : x.Is a) :
    (rr x 6 ^^^ rr x 11 ^^^ rr x 25).Is (bigSigma1 a) :=
  ((is_rr h (by omega)).xor (is_rr h (by omega))).xor (is_rr h (by omega))

theorem is_smallSigma0 (h : x.Is a) :
    (rr x 7 ^^^ rr x 18 ^^^ x.shr 3).Is (smallSigma0 a) :=
  ((is_rr h (by omega)).xor (is_rr h (by omega))).xor (h.shr (n := 3) (by omega))

theorem is_smallSigma1 (h : x.Is a) :
    (rr x 17 ^^^ rr x 19 ^^^ x.shr 10).Is (smallSigma1 a) :=
  ((is_rr h (by omega)).xor (is_rr h (by omega))).xor (h.shr (n := 10) (by omega))

theorem is_ch (hx : x.Is a) (hy : y.Is b) (hz : z.Is c) :
    ((x &&& y) ^^^ (~~~x &&& z)).Is (ch a b c) :=
  (hx.and hy).xor (hx.complement.and hz)

theorem is_maj (hx : x.Is a) (hy : y.Is b) (hz : z.Is c) :
    ((x &&& y) ^^^ (x &&& z) ^^^ (y &&& z)).Is (maj a b c) :=
  ((hx.and hy).xor (hx.and hz)).xor (hy.and hz)

end Words

/-! ## Rounds -/

open Sha256 (HashValue Word)

theorem eq_of_hasBits_words {hash : List JsNum} {v : HashValue}
    (hhash : HasBits hash v.words) :
    ∃ a b c d e f g h, hash = [a, b, c, d, e, f, g, h] ∧ a.Is v.a ∧ b.Is v.b ∧
      c.Is v.c ∧ d.Is v.d ∧ e.Is v.e ∧ f.Is v.f ∧ g.Is v.g ∧ h.Is v.h := by
  unfold HashValue.words at hhash
  obtain _ | ⟨ha, _ | ⟨hb, _ | ⟨hc, _ | ⟨hd, _ | ⟨he, _ | ⟨hf, _ | ⟨hg,
    _ | ⟨hh, _ | _⟩⟩⟩⟩⟩⟩⟩⟩ := hhash
  exact ⟨_, _, _, _, _, _, _, _, rfl, ha, hb, hc, hd, he, hf, hg, hh⟩

theorem hasBits_round {hash : List JsNum} {v : HashValue} {ki wi : JsNum} {k w : Word}
    (hhash : HasBits hash v.words) (hk : ki.Is k) (hw : wi.Is w) :
    HasBits (round hash ki wi) (v.round k w).words := by
  obtain ⟨a, b, c, d, e, f, g, h, rfl, ha, hb, hc, hd, he, hf, hg, hh⟩ :=
    eq_of_hasBits_words hhash
  have htemp1 := (((hh.add (is_bigSigma1 he)).add (is_ch he hf hg)).add hk).add hw
  have htemp2 := (is_bigSigma0 ha).add (is_maj ha hb hc)
  have hnewA := htemp1.add htemp2
  have hnewE := hd.add htemp1
  have hround : round [a, b, c, d, e, f, g, h] ki wi =
      [(h + (rr e 6 ^^^ rr e 11 ^^^ rr e 25) + ((e &&& f) ^^^ (~~~e &&& g)) + ki +
          wi + ((rr a 2 ^^^ rr a 13 ^^^ rr a 22) +
            ((a &&& b) ^^^ (a &&& c) ^^^ (b &&& c)))) ||| 0, a, b, c,
        (d + (h + (rr e 6 ^^^ rr e 11 ^^^ rr e 25) + ((e &&& f) ^^^ (~~~e &&& g)) +
          ki + wi)) ||| 0, e, f, g] := rfl
  rw [hround, hnewA.or_zero, hnewE.or_zero]
  exact .cons (JsNum.is_ofInt32 _) (.cons ha (.cons hb (.cons hc
    (.cons (JsNum.is_ofInt32 _) (.cons he (.cons hf (.cons hg .nil)))))))

theorem hasBits_scheduleWord {w : List JsNum} {block : List Word} {n : Nat}
    (h : HasBits w (Sha256.schedule block n)) (hlen : block.length = 16) :
    (scheduleWord w (16 + n)).Is (Sha256.nextWord (Sha256.schedule block n)) := by
  have hlength : (Sha256.schedule block n).length = 16 + n := by
    rw [Sha256.length_schedule, hlen]
  have hat (m : Nat) (hm : 0 < m ∧ m ≤ 16) :
      (elementAt w ((16 + n : Nat) - (m : Int))).Is
        ((Sha256.schedule block n).getD (16 + n - m) 0) := by
    have hcast : ((16 + n : Nat) - (m : Int)) = ↑(16 + n - m) := by omega
    rw [hcast]
    exact h.elementAt (by omega)
  have hsum := (((hat 16 (by omega)).add (is_smallSigma0 (hat 15 (by omega)))).add
    (hat 7 (by omega))).add (is_smallSigma1 (hat 2 (by omega)))
  have hbig : ¬ 16 + n < 16 := by omega
  have hword : scheduleWord w (16 + n) = .ofInt32 (Sha256.nextWord
      (Sha256.schedule block n)) := by
    rw [scheduleWord, if_neg hbig]
    refine hsum.or_zero.trans ?_
    simp only [Sha256.nextWord, hlength]
    congr 1
    ac_rfl
  rw [hword]
  exact JsNum.is_ofInt32 _

theorem set_getD (arr : List JsNum) {i : Nat} (h : i < arr.length) :
    arr.set i (arr.getD i .nan) = arr := by
  rw [List.getD_eq_getElem _ _ h, List.set_getElem_self]

theorem hasBits_nextWord {w : List JsNum} {block : List Word} {n : Nat}
    (h : HasBits w (Sha256.schedule block (n - 16))) (hlen : block.length = 16)
    (hn : n < 64) :
    (scheduleWord w n).Is (Sha256.roundWord block n) ∧
      HasBits (setElement w n (scheduleWord w n))
        (Sha256.schedule block (n + 1 - 16)) := by
  have hlength : w.length = 16 + (n - 16) := by
    rw [h.length_eq, Sha256.length_schedule, hlen]
  rcases Nat.lt_or_ge n 16 with hlt | hge
  · have hword : scheduleWord w n = w.getD n .nan := by
      rw [scheduleWord, if_pos hlt, elementAt_natCast]
    have hat := h.elementAt (i := n) (by rw [Sha256.length_schedule]; omega)
    have hbefore : n - 16 = n + 1 - 16 := by omega
    rw [elementAt_natCast] at hat
    rw [hword, Sha256.roundWord_eq block (show n - 16 ≤ 48 by omega) (by omega),
      setElement_of_lt (by omega), set_getD _ (by omega), ← hbefore]
    exact ⟨hat, h⟩
  · obtain ⟨m, rfl⟩ := Nat.exists_eq_add_of_le hge
    have hm : 16 + m - 16 = m := by omega
    have hnext : 16 + m + 1 - 16 = m + 1 := by omega
    rw [hm] at h hlength
    have hword := hasBits_scheduleWord h hlen
    have hround := Sha256.roundWord_length_add block (n := m) (by omega)
    rw [hlen] at hround
    rw [hround, hnext, ← hlength, setElement_length, hlength, Sha256.schedule]
    exact ⟨hword, List.rel_append h (.cons hword .nil)⟩

/-- What the loop over a block has after some turns. -/
structure LoopBits (block : List Word) (v : HashValue) (n : Nat)
    (state : List JsNum × List JsNum) : Prop where
  w : HasBits state.1 (Sha256.schedule block (n - 16))
  hash : HasBits state.2 (Sha256.rounds block v n).words

theorem loopBits_rounds {k w hash : List JsNum} {block : List Word} {v : HashValue}
    (hk : HasBits k Sha256.roundConstants) (hw : HasBits w block)
    (hlen : block.length = 16) (hhash : HasBits hash v.words) {n : Nat}
    (hn : n ≤ 64) : LoopBits block v n (rounds k w hash n) := by
  induction n with
  | zero => exact ⟨hw, hhash⟩
  | succ n ih =>
      have hbits := ih (by omega)
      have hconstant := hk.elementAt (i := n) (by change n < 64; omega)
      obtain ⟨hword, hwords⟩ := hasBits_nextWord hbits.w hlen (by omega)
      exact ⟨hwords, hasBits_round hbits.hash hconstant hword⟩

/-! ## Blocks -/

theorem foldl_addOld (a b c d e f g h a' b' c' d' e' f' g' h' : JsNum)
    (rest : List JsNum) :
    (List.range 8).foldl (addOld ([a', b', c', d', e', f', g', h'] ++ rest))
        [a, b, c, d, e, f, g, h] =
      [(a + a') ||| 0, (b + b') ||| 0, (c + c') ||| 0, (d + d') ||| 0,
        (e + e') ||| 0, (f + f') ||| 0, (g + g') ||| 0, (h + h') ||| 0] := by
  have hrange : List.range 8 = [0, 1, 2, 3, 4, 5, 6, 7] := rfl
  simp [hrange, addOld, setElement, elementAt]

theorem hasBits_addOld {old hash : List JsNum} {v u : HashValue}
    (hold : HasBits old v.words) (hhash : HasBits hash u.words) (rest : List JsNum) :
    HasBits ((List.range 8).foldl (addOld (old ++ rest)) hash) (v.add u).words := by
  obtain ⟨a', b', c', d', e', f', g', h', rfl, hva, hvb, hvc, hvd, hve, hvf, hvg,
    hvh⟩ := eq_of_hasBits_words hold
  obtain ⟨a, b, c, d, e, f, g, h, rfl, hua, hub, huc, hud, hue, huf, hug, huh⟩ :=
    eq_of_hasBits_words hhash
  have hsum {x y : JsNum} {a b : Word} (hx : x.Is a) (hy : y.Is b) :
      ((y + x) ||| 0).Is (a + b) := by
    rw [(hy.add hx).or_zero, BitVec.add_comm]
    exact JsNum.is_ofInt32 _
  rw [foldl_addOld]
  exact .cons (hsum hva hua) (.cons (hsum hvb hub) (.cons (hsum hvc huc)
    (.cons (hsum hvd hud) (.cons (hsum hve hue) (.cons (hsum hvf huf)
      (.cons (hsum hvg hug) (.cons (hsum hvh huh) .nil)))))))

theorem hasBits_hashBlock_of_rounds {k oldHash w : List JsNum} {v u : HashValue}
    (hold : HasBits (oldHash.take 8) v.words)
    (hrounds : HasBits (rounds k w (oldHash.take 8) 64).2 u.words) :
    HasBits (hashBlock k oldHash w) (v.add u).words := by
  have hsums := hasBits_addOld hold hrounds (oldHash.drop 8)
  rw [List.take_append_drop] at hsums
  exact hsums

theorem hasBits_hashBlock {k oldHash w : List JsNum} {v : HashValue}
    {block : List Word} (hk : HasBits k Sha256.roundConstants)
    (hold : HasBits (oldHash.take 8) v.words) (hw : HasBits w block)
    (hlen : block.length = 16) :
    HasBits (hashBlock k oldHash w) (Sha256.compress v block).words :=
  hasBits_hashBlock_of_rounds hold (loopBits_rounds hk hw hlen hold le_rfl).hash

theorem take_of_hasBits {hash : List JsNum} {v : HashValue}
    (h : HasBits hash v.words) : hash.take 8 = hash :=
  List.take_of_length_le (le_of_eq h.length_eq)

theorem hashBlocks_full {k words hash : List JsNum} {v : HashValue} {j n : Nat}
    {rest : List Word} (hk : HasBits k Sha256.roundConstants)
    (hhash : HasBits (hash.take 8) v.words)
    (hrest : HasBits ((words.drop j).take (16 * n)) rest)
    (hlen : rest.length = 16 * n) :
    ∃ hash', HasBits (hash'.take 8) (Sha256.hashBlocks v n rest).words ∧
      hashBlocks k words hash j = hashBlocks k words hash' (j + 16 * n) := by
  have hleft : 16 * n ≤ words.length - j := by
    have hlength := hrest.length_eq
    rw [List.length_take, List.length_drop, hlen] at hlength
    omega
  induction n generalizing v hash j rest with
  | zero => exact ⟨hash, hhash, rfl⟩
  | succ n ih =>
      have hmore : j < words.length := by omega
      have hblock := List.forall₂_take 16 hrest
      have hfull : (rest.take 16).length = 16 := by
        rw [List.length_take]
        omega
      have hmin : min 16 (16 * (n + 1)) = 16 := by omega
      rw [List.take_take, hmin] at hblock
      have hnext := hasBits_hashBlock hk hhash hblock hfull
      rw [← take_of_hasBits hnext] at hnext
      have hdrop := List.forall₂_drop 16 hrest
      have hcount : 16 * (n + 1) - 16 = 16 * n := by omega
      rw [List.drop_take, List.drop_drop, hcount] at hdrop
      have hlater : (rest.drop 16).length = 16 * n := by
        rw [List.length_drop, hlen, hcount]
      obtain ⟨hash', hbits, hloop⟩ := ih hnext hdrop hlater (by omega)
      have hplace : j + 16 + 16 * n = j + 16 * (n + 1) := by omega
      rw [hplace] at hloop
      rw [hashBlocks, if_pos hmore]
      exact ⟨hash', hbits, hloop⟩

theorem hashBlocks_of_length_le {words : List JsNum} {j : Nat}
    (h : words.length ≤ j) (k hash : List JsNum) :
    hashBlocks k words hash j = hash := by
  rw [hashBlocks, if_neg (Nat.not_lt.mpr h)]

theorem hasBits_hashBlocks {k words hash : List JsNum} {v : HashValue} {n : Nat}
    {rest : List Word} (hk : HasBits k Sha256.roundConstants)
    (hhash : HasBits (hash.take 8) v.words) (hrest : HasBits words rest)
    (hlen : rest.length = 16 * n) :
    HasBits ((hashBlocks k words hash 0).take 8)
      (Sha256.hashBlocks v n rest).words := by
  have hlength : words.length = 16 * n := hrest.length_eq.trans hlen
  have htake : (words.drop 0).take (16 * n) = words := by
    rw [List.drop_zero, ← hlength, List.take_length]
  obtain ⟨hash', hbits, hloop⟩ :=
    hashBlocks_full hk hhash (htake.symm ▸ hrest) hlen
  rw [hloop, hashBlocks_of_length_le (by omega)]
  exact hbits

/-! ## Digests -/

theorem byteText_of_lt {n : Nat} (h : n < 256) :
    byteText n = [Nat.digitChar (n / 16), Nat.digitChar (n % 16)] := by
  have hlow : Nat.toDigits 16 (n % 16) = [Nat.digitChar (n % 16)] :=
    Nat.toDigits_of_lt_base (by omega)
  have hhigh : Nat.toDigits 16 (n / 16) = [Nat.digitChar (n / 16)] :=
    Nat.toDigits_of_lt_base (by omega)
  unfold byteText
  split
  next hsmall =>
    have hzero : n / 16 = 0 := by omega
    have hself : n % 16 = n := by omega
    rw [hself] at hlow
    rw [hzero, hself, hlow]
    rfl
  next hbig =>
    have hdigits := Nat.toDigits_append_toDigits (b := 16) (n := n / 16)
      (d := n % 16) (by omega) (by omega) (by omega)
    rw [Nat.div_add_mod, hlow, hhigh] at hdigits
    exact hdigits.symm

theorem sshiftRight_and (b : Sha256.Word) {s : Nat} (hs : s + 8 ≤ 32) :
    b.sshiftRight s &&& 255 = (b.extractLsb' s 8).setWidth 32 := by
  apply BitVec.eq_of_getLsbD_eq
  intro i hi
  have hmask : (255 : Sha256.Word).getLsbD i = decide (i < 8) := by
    revert i
    decide
  rw [BitVec.getLsbD_and, hmask]
  by_cases h8 : i < 8
  · have hsi : s + i < 32 := by omega
    simp [BitVec.getElem_sshiftRight, h8, hi, hsi]
  · simp [h8]

theorem byteText_sar (x : JsNum) {j : Nat} (hj : j < 4) :
    byteText ((x.sar (j * 8)) &&& 255).toInt32.toNat =
      hexText [UInt8.ofBitVec (x.toInt32.extractLsb' (j * 8) 8)] := by
  have hcount : (j : Int) * 8 = ↑(j * 8) := by omega
  have hmask : (255 : JsNum).toInt32 = 255 := rfl
  have hsar : (x.sar (j * 8)).toInt32 = x.toInt32.sshiftRight (j * 8) := by
    rw [hcount, JsNum.sar, JsNum.toInt32_ofInt32, JsNum.shiftCount_natCast (by omega)]
  have hand : ((x.sar (j * 8)) &&& 255).toInt32 =
      (x.toInt32.extractLsb' (j * 8) 8).setWidth 32 := by
    rw [← sshiftRight_and _ (by omega), ← hsar, ← hmask]
    exact JsNum.toInt32_ofInt32 _
  have hbyte := (x.toInt32.extractLsb' (j * 8) 8).isLt
  rw [hand, BitVec.toNat_setWidth, Nat.mod_eq_of_lt (by omega),
    byteText_of_lt (by omega)]
  rfl

theorem wordText_eq (x : JsNum) : wordText x = hexText (Sha256.toBytes x.toInt32) := by
  have h3 := byteText_sar x (j := 3) (by omega)
  have h2 := byteText_sar x (j := 2) (by omega)
  have h1 := byteText_sar x (j := 1) (by omega)
  have h0 := byteText_sar x (j := 0) (by omega)
  simp only [wordText, List.flatMap_cons, List.flatMap_nil]
  exact congrArg₂ _ h3 (congrArg₂ _ h2 (congrArg₂ _ h1 (congrArg₂ _ h0 rfl)))

theorem resultText_eq (hash : List JsNum) :
    resultText hash = hexText ((List.range 8).flatMap fun i =>
      Sha256.toBytes (elementAt hash i).toInt32) := by
  simp only [resultText, wordText_eq, hexText, List.flatMap_assoc]

theorem resultText_append {hash : List JsNum} {v : HashValue}
    (hhash : HasBits hash v.words) (rest : List JsNum) :
    resultText (hash ++ rest) = hexText (v.words.flatMap Sha256.toBytes) := by
  obtain ⟨a, b, c, d, e, f, g, h, rfl, ha, hb, hc, hd, he, hf, hg, hh⟩ :=
    eq_of_hasBits_words hhash
  have hrange : List.range 8 = [0, 1, 2, 3, 4, 5, 6, 7] := rfl
  simp [resultText_eq, hrange, elementAt, HashValue.words, ha.toInt32, hb.toInt32,
    hc.toInt32, hd.toInt32, he.toInt32, hf.toInt32, hg.toInt32, hh.toInt32]

theorem resultText_of_hasBits {hash : List JsNum} {v : HashValue}
    (h : HasBits (hash.take 8) v.words) :
    resultText hash = hexText (v.words.flatMap Sha256.toBytes) := by
  have htext := resultText_append h (hash.drop 8)
  rwa [List.take_append_drop] at htext

/-! ## The padded words -/

theorem padZeros_eq (ascii : JsString) :
    padZeros ascii = ascii ++ List.replicate ((120 - ascii.length % 64) % 64) 0 := by
  fun_induction padZeros ascii with
  | case1 ascii hfull => simp [hfull]
  | case2 ascii hmore ih =>
      have hlen : (ascii ++ [0]).length = ascii.length + 1 := by simp
      have hcount : (120 - ascii.length % 64) % 64 =
          (120 - (ascii.length + 1) % 64) % 64 + 1 := by omega
      rw [ih, hlen, hcount, List.replicate_succ, List.append_assoc]
      rfl

theorem padZeros_padFront (bytes : Bytes) :
    padZeros (bytes.map UInt8.toUInt16 ++ [0x80]) =
      (Sha256.padFront bytes).map UInt8.toUInt16 := by
  have hcount : (120 - (bytes.length + 1) % 64) % 64 = Sha256.zeros bytes.length := by
    unfold Sha256.zeros
    omega
  simp [padZeros_eq, hcount, Sha256.padFront]

theorem hasBits_lengthWords (length : Nat) :
    HasBits [JsNum.int (length * 8 / 2 ^ 32 : Nat) ||| 0, JsNum.int (length * 8 : Nat)]
      [BitVec.ofNat 32 (8 * length / 2 ^ 32), BitVec.ofNat 32 (8 * length)] := by
  rw [(JsNum.is_natCast _).or_zero, Nat.mul_comm]
  exact .cons (JsNum.is_ofInt32 _) (.cons (JsNum.is_natCast _) .nil)

theorem length_padFront_le {bytes : Bytes} (h : bytes.length + 8 < 2 ^ 31) :
    (Sha256.padFront bytes).length ≤ 2 ^ 31 := by
  have hmod := Sha256.length_padFront_mod bytes
  have hlen := Sha256.length_padFront bytes
  have hzeros : Sha256.zeros bytes.length < 64 := Nat.mod_lt _ (by decide)
  omega

theorem hasBits_paddedWords {bytes : Bytes} (h : bytes.length + 8 < 2 ^ 31) :
    HasBits (paddedWords (bytes.map UInt8.toUInt16)) (Sha256.padded bytes) := by
  have hmod := Sha256.length_padFront_mod bytes
  have hpack := packFrom_toWords [] (Sha256.padFront bytes) (by omega)
    (by simpa using length_padFront_le h)
  simp only [List.length_nil, Nat.mul_zero, List.nil_append] at hpack
  simp only [paddedWords, padZeros_padFront, hpack, List.length_map, Sha256.padded]
  exact List.rel_append (hasBits_map_ofInt32 _) (hasBits_lengthWords _)

end Sha256Pure

def sha256pure (T : Sha256Tables) (ascii : JsString) : Text :=
  Sha256Pure.resultText
    (Sha256Pure.hashBlocks T.k (Sha256Pure.paddedWords ascii) T.h 0)

namespace Sha256Pure

variable (T : Sha256Tables)

theorem hasBits_k : HasBits T.k Sha256.roundConstants :=
  T.k_eq ▸ hasBits_map_ofInt32 _

theorem hasBits_h : HasBits (T.h.take 8) Sha256.HashValue.initial.words :=
  T.take_h ▸ hasBits_map_ofInt32 _

theorem sha256pure_bytes {bytes : Bytes} (h : bytes.length + 8 < 2 ^ 31) :
    sha256pure T (bytes.map UInt8.toUInt16) = sha256Hex bytes :=
  resultText_of_hasBits (hasBits_hashBlocks (hasBits_k T) (hasBits_h T)
    (hasBits_paddedWords h) (Sha256.length_padded bytes))

end Sha256Pure

theorem toJsString_eq_map_utf8 {text : Text} (h : ∀ c ∈ text, c.toNat < 128) :
    toJsString text = (utf8 text).map UInt8.toUInt16 ∧
      (utf8 text).length = text.length := by
  induction text with
  | nil => exact ⟨rfl, rfl⟩
  | cons c text ih =>
      obtain ⟨hrest, hlen⟩ := ih fun c' hc' => h c' (List.mem_cons_of_mem c hc')
      have hc := h c List.mem_cons_self
      have hunits : codeUnits c = [(UInt8.ofNat c.toNat).toUInt16] := by
        have hsmall : c.toNat < 0x10000 := by omega
        rw [codeUnits, if_pos hsmall]
        congr 1
        apply UInt16.toNat_inj.mp
        rw [UInt8.toNat_toUInt16, UInt16.toNat_ofNat', UInt8.toNat_ofNat']
        omega
      rw [utf8_cons, utf8EncodeChar_of_lt hc, toJsString, List.flatMap_cons, hunits,
        ← toJsString, hrest]
      simp [hlen]

theorem sha256pure_eq_sha256Hex (T : Sha256Tables) {text : Text}
    (hascii : ∀ c ∈ text, c.toNat < 128) (hlen : text.length + 8 < 2 ^ 31) :
    sha256pure T (toJsString text) = sha256Hex (utf8 text) := by
  obtain ⟨hunits, hbytes⟩ := toJsString_eq_map_utf8 hascii
  rw [hunits]
  exact Sha256Pure.sha256pure_bytes T (hbytes ▸ hlen)

end IreBlockchain.Brokers
