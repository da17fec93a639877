import IreBlockchain.Foundation.ByteTexts

/-!
# Raw transactions

The node sends the bytes of a transaction as base64, and some of its answers
have them as hex.  The pages tell the two apart by the text alone.
-/

namespace IreBlockchain.Explorer

open IreBlockchain.Foundation

def hexPart (raw : Text) : Text :=
  if "0x".toList <+: raw then raw.drop 2 else raw

def looksHex (hex : Text) : Bool :=
  hex ≠ [] && hex.all isHexDigit && hex.length % 2 = 0 && 64 ≤ hex.length

/-- The bytes of a transaction, or none where `atob` throws. -/
def bytesFromRpcTx (raw : Text) : Option Bytes :=
  if raw = [] then some []
  else
    let hex := hexPart raw
    if looksHex hex then some (readHexBytes hex) else atob raw

/-! ## Hex texts -/

theorem hexPart_eq_self {raw : Text} (h : raw.all isHexDigit = true) :
    hexPart raw = raw := by
  unfold hexPart
  split
  next hprefix =>
    have hx : 'x' ∈ raw := hprefix.subset (by decide)
    exact absurd (List.all_eq_true.mp h 'x' hx) (by decide)
  next => rfl

theorem hexPart_append (hex : Text) : hexPart ("0x".toList ++ hex) = hex := by
  simp [hexPart]

/-- A text of the hex digits of some bytes, in upper or lower case. -/
def HexOf (bytes : Bytes) (text : Text) : Prop :=
  lower text = hexText bytes

variable {bytes : Bytes} {text : Text}

theorem HexOf.all_isHexDigit (h : HexOf bytes text) :
    text.all isHexDigit = true := by
  rw [← all_isHexDigit_lower, h]
  exact all_isHexDigit_hexText bytes

theorem HexOf.length_eq (h : HexOf bytes text) :
    text.length = 2 * bytes.length := by
  rw [← length_hexText bytes, ← h, lower, List.length_map]

theorem HexOf.looksHex (h : HexOf bytes text) (hlength : 32 ≤ bytes.length) :
    looksHex text = true := by
  have htext := h.length_eq
  have hne : text ≠ [] := by
    rintro rfl
    rw [List.length_nil] at htext
    omega
  simp only [Explorer.looksHex, h.all_isHexDigit, htext, hne, Bool.and_eq_true,
    decide_eq_true_eq, ne_eq, not_false_eq_true, true_and]
  omega

theorem HexOf.readHexBytes_eq (h : HexOf bytes text) :
    readHexBytes text = bytes := by
  rw [← readHexBytes_lower, h]
  exact readHexBytes_hexText bytes

theorem bytesFromRpcTx_of_hexPart {raw : Text} (hraw : raw ≠ [])
    (h : HexOf bytes (hexPart raw)) (hlength : 32 ≤ bytes.length) :
    bytesFromRpcTx raw = some bytes := by
  simp only [bytesFromRpcTx, if_neg hraw, h.looksHex hlength, if_true,
    h.readHexBytes_eq]

/-! ## Base64 texts -/

/--
The last two bits of the first byte put the second character among `g` to `v`,
and none of these is a hex digit.
-/
theorem second_char {n : Nat} (h : n < 16) :
    isHexDigit (base64Char ((0x0a : UInt8).toNat % 4 * 16 + n)) = false := by
  revert n
  decide

theorem looksHex_base64 (bytes : Bytes) :
    looksHex (hexPart (base64 (0x0a :: bytes))) = false := by
  obtain ⟨n, rest, hn, htext⟩ := base64_cons 0x0a bytes
  have hpart : hexPart (base64 (0x0a :: bytes)) = base64 (0x0a :: bytes) := by
    rw [htext]
    apply if_neg
    intro hprefix
    exact absurd (List.cons_prefix_cons.mp hprefix).1 (by decide)
  rw [hpart, htext, looksHex, List.all_cons, List.all_cons, second_char hn]
  simp

/--
The bytes of a transaction are read back from their base64 text, which is never
taken for hex, and from 32 bytes on also from their hex texts, with or without
a `0x` before them.
-/
theorem bytesFromRpcTx_reads_texts {bytes : Bytes}
    (h : bytes.head? = some 0x0a) :
    looksHex (hexPart (base64 bytes)) = false ∧
      bytesFromRpcTx (base64 bytes) = some bytes ∧
      (32 ≤ bytes.length → ∀ text, HexOf bytes text →
        bytesFromRpcTx text = some bytes ∧
          bytesFromRpcTx ("0x".toList ++ text) = some bytes) := by
  obtain ⟨rest, rfl⟩ := List.head?_eq_some_iff.mp h
  have hbase64 := looksHex_base64 rest
  refine ⟨hbase64, ?_, ?_⟩
  · have hne : base64 (0x0a :: rest) ≠ [] := by
      obtain ⟨n, others, -, htext⟩ := base64_cons 0x0a rest
      rw [htext]
      exact List.cons_ne_nil _ _
    simp only [bytesFromRpcTx, if_neg hne, hbase64, atob_base64]
    rfl
  · intro hlength text htext
    constructor
    · apply bytesFromRpcTx_of_hexPart _ _ hlength
      · rintro rfl
        have := htext.length_eq
        simp at this
      · rw [hexPart_eq_self htext.all_isHexDigit]
        exact htext
    · apply bytesFromRpcTx_of_hexPart (by simp) _ hlength
      rw [hexPart_append]
      exact htext

theorem bytesFromRpcTx_reads_texts_sample :
    bytesFromRpcTx "CgEC".toList = some [0x0a, 1, 2] ∧
      let bytes := 0x0a :: List.replicate 31 0xab
      let text := "0A".toList ++ (List.replicate 31 "aB".toList).flatten
      bytesFromRpcTx text = some bytes ∧
        bytesFromRpcTx ("0x".toList ++ text) = some bytes := by
  refine ⟨(bytesFromRpcTx_reads_texts (show [0x0a, 1, 2].head? = some 0x0a
    from rfl)).2.1, ?_⟩
  intro bytes text
  have hhead : bytes.head? = some 0x0a := rfl
  have htext : HexOf bytes text := by
    unfold HexOf
    decide +kernel
  exact (bytesFromRpcTx_reads_texts hhead).2.2 (by decide) text htext

end IreBlockchain.Explorer
