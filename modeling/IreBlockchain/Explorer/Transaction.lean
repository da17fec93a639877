import IreBlockchain.Explorer.Inscription
import IreBlockchain.Foundation.Protobuf

/-!
# Transactions as they are encoded

A transaction carries its memo between the messages and the other fields of the
body.  The bytes on both sides of the memo end and start unprintably.
-/

namespace IreBlockchain.Explorer

open IreBlockchain.Foundation

structure AnyMsg where
  typeUrl : Text
  value : Bytes

def AnyMsg.encode (msg : AnyMsg) : Bytes :=
  bytesField 1 (utf8 msg.typeUrl) ++ bytesField 2 msg.value

/-- The extension options are encoded already. -/
structure TxBody where
  messages : List AnyMsg
  memo : Text
  timeoutHeight : Nat
  unordered : Bool
  timeoutTimestamp : Option Bytes
  extensionOptions : List Bytes
  nonCriticalExtensionOptions : List Bytes

structure TxRaw where
  body : TxBody
  authInfo : Bytes
  signatures : List Bytes

namespace TxBody

def encodeMessages (body : TxBody) : Bytes :=
  body.messages.flatMap fun msg => messageField 1 msg.encode

def encodeOptions (body : TxBody) : Bytes :=
  varintField 3 body.timeoutHeight ++
    varintField 4 (if body.unordered then 1 else 0) ++
    (body.timeoutTimestamp.map (messageField 5)).getD [] ++
    body.extensionOptions.flatMap (messageField 1023) ++
    body.nonCriticalExtensionOptions.flatMap (messageField 2047)

def encode (body : TxBody) : Bytes :=
  body.encodeMessages ++ bytesField 2 (utf8 body.memo) ++ body.encodeOptions

end TxBody

namespace TxRaw

def encodeSigners (tx : TxRaw) : Bytes :=
  bytesField 2 tx.authInfo ++ tx.signatures.flatMap (messageField 3)

def encode (tx : TxRaw) : Bytes :=
  bytesField 1 tx.body.encode ++ tx.encodeSigners

def beforeMemo (tx : TxRaw) : Bytes :=
  tag 1 2 ++ varint tx.body.encode.length ++ tx.body.encodeMessages ++
    (tag 2 2 ++ varint (utf8 tx.body.memo).length)

def afterMemo (tx : TxRaw) : Bytes :=
  tx.body.encodeOptions ++ tx.encodeSigners

theorem encode_of_memo {tx : TxRaw} (h : tx.body.memo ≠ []) :
    tx.encode = tx.beforeMemo ++ (utf8 tx.body.memo ++ tx.afterMemo) := by
  have hmemo : utf8 tx.body.memo ≠ [] := by
    rw [ne_eq, utf8_eq_nil_iff]
    exact h
  have hfield : bytesField 2 (utf8 tx.body.memo) =
      tag 2 2 ++ varint (utf8 tx.body.memo).length ++ utf8 tx.body.memo := by
    rw [bytesField, if_neg hmemo, messageField]
  have hbody : tx.body.encode ≠ [] := by
    rw [TxBody.encode, hfield]
    simp [hmemo]
  rw [encode, bytesField, if_neg hbody, messageField, beforeMemo, afterMemo]
  generalize hlength : tx.body.encode.length = n
  rw [TxBody.encode, hfield]
  simp only [List.append_assoc]

end TxRaw

/-! ## Printable projections -/

theorem asciiFromBytes_append (l m : Bytes) :
    asciiFromBytes (l ++ m) = asciiFromBytes l ++ asciiFromBytes m :=
  List.map_append

def isPrintable (c : Char) : Bool := 32 ≤ c.toNat && c.toNat < 127

theorem isPrintable_of_isAlphanum {c : Char} (h : c.isAlphanum = true) :
    isPrintable c = true := by
  rw [Char.isAlphanum, Bool.or_eq_true, isAlpha_iff_toNat,
    Char.isDigit_iff_toNat] at h
  change _ ∨ (48 ≤ c.toNat ∧ c.toNat ≤ 57) at h
  rw [isPrintable, Bool.and_eq_true, decide_eq_true_eq, decide_eq_true_eq]
  omega

theorem asciiOfByte_of_printable {b : UInt8} (hle : 32 ≤ b.toNat)
    (hlt : b.toNat < 127) : asciiOfByte b = Char.ofNat b.toNat := by
  have hle' : (32 : UInt8) ≤ b := UInt8.le_iff_toNat_le.mpr hle
  have hlt' : b < 127 := UInt8.lt_iff_toNat_lt.mpr hlt
  simp [asciiOfByte, hle', hlt']

theorem asciiOfByte_of_unprintable {b : UInt8}
    (h : b.toNat < 32 ∨ 127 ≤ b.toNat) : asciiOfByte b = nul := by
  have hcond : ¬ ((32 ≤ b && b < 127) = true) := by
    rw [Bool.and_eq_true, decide_eq_true_eq, decide_eq_true_eq,
      UInt8.le_iff_toNat_le, UInt8.lt_iff_toNat_lt]
    change ¬ (32 ≤ b.toNat ∧ b.toNat < 127)
    omega
  rw [asciiOfByte, if_neg hcond]

theorem ascii_utf8EncodeChar {c : Char} (h : isPrintable c = true) :
    asciiFromBytes (String.utf8EncodeChar c) = [c] := by
  simp only [isPrintable, Bool.and_eq_true, decide_eq_true_eq] at h
  have hbyte : (UInt8.ofNat c.toNat).toNat = c.toNat := by
    rw [UInt8.toNat_ofNat']
    omega
  rw [utf8EncodeChar_of_lt (by omega), asciiFromBytes, List.map_singleton,
    asciiOfByte_of_printable (by omega) (by omega), hbyte, Char.ofNat_toNat]

theorem ascii_utf8_of_printable {text : Text}
    (h : ∀ c ∈ text, isPrintable c = true) :
    asciiFromBytes (utf8 text) = text := by
  induction text with
  | nil => rfl
  | cons c text ih =>
      rw [utf8_cons, asciiFromBytes_append,
        ascii_utf8EncodeChar (h c List.mem_cons_self),
        ih fun d hd => h d (List.mem_cons_of_mem c hd)]
      rfl

theorem ascii_utf8_of_unprintable {c : Char} (h : isPrintable c = false)
    (text : Text) : ∃ rest, asciiFromBytes (utf8 (c :: text)) = nul :: rest := by
  simp only [isPrintable, Bool.and_eq_false_iff, decide_eq_false_iff_not] at h
  rw [utf8_cons]
  by_cases hascii : c.toNat < 128
  · have hbyte : asciiOfByte (UInt8.ofNat c.toNat) = nul := by
      apply asciiOfByte_of_unprintable
      rw [UInt8.toNat_ofNat']
      omega
    rw [utf8EncodeChar_of_lt hascii, List.singleton_append, asciiFromBytes,
      List.map_cons, hbyte]
    exact ⟨_, rfl⟩
  · obtain ⟨b, rest, heq, hb⟩ := utf8EncodeChar_of_ge (Nat.not_lt.mp hascii)
    have hbyte : asciiOfByte b = nul :=
      asciiOfByte_of_unprintable (Or.inr (by omega))
    rw [heq, List.cons_append, asciiFromBytes, List.map_cons, hbyte]
    exact ⟨_, rfl⟩

theorem ascii_varint (n : Nat) :
    ∃ k c, asciiFromBytes (varint n) = List.replicate k nul ++ [c] := by
  obtain ⟨high, last, heq, hhigh, _⟩ := varintFrom_eq n n
  refine ⟨high.length, asciiOfByte last, ?_⟩
  have hnuls : asciiFromBytes high = List.replicate high.length nul := by
    rw [List.eq_replicate_iff]
    refine ⟨List.length_map _, ?_⟩
    intro c hc
    obtain ⟨b, hb, rfl⟩ := List.mem_map.mp hc
    have hge := hhigh b hb
    exact asciiOfByte_of_unprintable (Or.inr (by omega))
  rw [varint, heq, asciiFromBytes_append, hnuls]
  rfl

end IreBlockchain.Explorer
