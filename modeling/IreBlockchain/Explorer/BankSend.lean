import IreBlockchain.Explorer.Addresses
import IreBlockchain.Explorer.Keywords

/-!
# Bank sends

Where the two addresses of a `MsgSend` stand in the bytes of its transaction.
-/

namespace IreBlockchain.Explorer

open IreBlockchain.Foundation

structure Coin where
  denom : Text
  amount : Nat

def Coin.encode (coin : Coin) : Bytes :=
  bytesField 1 (utf8 coin.denom) ++ bytesField 2 (utf8 (decimal coin.amount))

structure MsgSend where
  fromAddress : IreAddr
  toAddress : IreAddr
  amount : List Coin

namespace MsgSend

def typeUrl : Text := "/cosmos.bank.v1beta1.MsgSend".toList

def encode (msg : MsgSend) : Bytes :=
  bytesField 1 (utf8 msg.fromAddress.text) ++
    bytesField 2 (utf8 msg.toAddress.text) ++
    msg.amount.flatMap fun coin => messageField 3 coin.encode

def toAny (msg : MsgSend) : AnyMsg := ⟨typeUrl, msg.encode⟩

end MsgSend

/-! ## Bytes that end an address -/

def EndsAddr (bytes : Bytes) : Prop :=
  ∀ b rest, bytes = b :: rest → isAddrChar (asciiOfByte b) = false

theorem Apart.endsAddr {bytes : Bytes} (h : Apart bytes) : EndsAddr bytes := by
  intro b rest heq
  have hb := h b rest heq
  simp only [List.mem_cons, List.not_mem_nil, or_false] at hb
  rcases hb with hb | hb | hb
  all_goals
    rw [hb]
    decide

/-! ## The bytes around the addresses -/

def MsgSend.afterRecipient (msg : MsgSend) (tx : TxRaw) : Bytes :=
  (msg.amount.flatMap fun coin => messageField 3 coin.encode) ++
    bytesField 2 (utf8 tx.body.memo) ++ tx.body.encodeOptions ++
    tx.encodeSigners

theorem apart_afterRecipient (msg : MsgSend) (tx : TxRaw) :
    Apart (msg.afterRecipient tx) := by
  apply Apart.append
  · apply Apart.append
    · apply Apart.append
      · exact Apart.flatMap
          (fun coin => apart_messageField rfl (by decide) _) _
      · exact apart_bytesField rfl (by decide) _
    · exact apart_encodeOptions tx.body
  · exact apart_encodeSigners tx

theorem messageField_eq (field : Nat) (payload rest : Bytes) :
    messageField field payload ++ rest =
      tag field 2 ++ (varint payload.length ++ (payload ++ rest)) := by
  simp only [messageField, List.append_assoc]

theorem bytesField_eq {field : Nat} {payload : Bytes} (h : payload ≠ [])
    (rest : Bytes) : bytesField field payload ++ rest =
      tag field 2 ++ (varint payload.length ++ (payload ++ rest)) := by
  rw [bytesField, if_neg h, messageField_eq]

theorem utf8_address_ne_nil (addr : IreAddr) : utf8 addr.text ≠ [] := by
  rw [ne_eq, utf8_eq_nil_iff]
  exact addr.text_ne_nil

theorem MsgSend.encode_eq (msg : MsgSend) (rest : Bytes) :
    msg.encode ++ rest =
      tag 1 2 ++ (varint (utf8 msg.fromAddress.text).length ++
        (utf8 msg.fromAddress.text ++
      (tag 2 2 ++ (varint (utf8 msg.toAddress.text).length ++
        (utf8 msg.toAddress.text ++
      ((msg.amount.flatMap fun coin => messageField 3 coin.encode) ++
        rest)))))) := by
  rw [MsgSend.encode, List.append_assoc, List.append_assoc,
    bytesField_eq (utf8_address_ne_nil msg.fromAddress),
    bytesField_eq (utf8_address_ne_nil msg.toAddress)]

theorem encode_of_send {tx : TxRaw} {msg : MsgSend}
    (h : tx.body.messages = [msg.toAny]) :
    tx.encode =
      tag 1 2 ++ (varint tx.body.encode.length ++
      (tag 1 2 ++ (varint msg.toAny.encode.length ++
      (tag 1 2 ++ (varint (utf8 MsgSend.typeUrl).length ++
        (utf8 MsgSend.typeUrl ++
      (tag 2 2 ++ (varint msg.encode.length ++
      (tag 1 2 ++ (varint (utf8 msg.fromAddress.text).length ++
        (utf8 msg.fromAddress.text ++
      (tag 2 2 ++ (varint (utf8 msg.toAddress.text).length ++
        (utf8 msg.toAddress.text ++ msg.afterRecipient tx)))))))))))))) := by
  have hurl : utf8 MsgSend.typeUrl ≠ [] := by decide
  have hvalue : msg.encode ≠ [] := by
    intro hnil
    have heq := msg.encode_eq []
    rw [hnil] at heq
    exact absurd heq (by simp [utf8_address_ne_nil])
  have hbody : tx.body.encode ≠ [] := by
    intro hnil
    rw [TxBody.encode, TxBody.encodeMessages, h] at hnil
    simp [messageField, MsgSend.toAny, AnyMsg.encode, bytesField, hurl] at hnil
  rw [TxRaw.encode, bytesField_eq hbody]
  congr 2
  rw [TxBody.encode, TxBody.encodeMessages, h, List.flatMap_singleton,
    List.append_assoc, List.append_assoc, messageField_eq]
  congr 2
  rw [AnyMsg.encode, List.append_assoc, MsgSend.toAny, bytesField_eq hurl,
    bytesField_eq hvalue, msg.encode_eq]
  simp only [MsgSend.afterRecipient, List.append_assoc]

/-! ## The addresses of a send -/

def addrsIn (bytes : Bytes) : List Text :=
  allMatches addrWidth (asciiFromBytes bytes)

theorem isAddrChar_nul : isAddrChar nul = false := by decide

theorem addrsIn_cons {b : UInt8} (hb : isAddrChar (asciiOfByte b) = false)
    (rest : Bytes) : addrsIn (b :: rest) = addrsIn rest :=
  allMatches_addr_cons hb _

theorem addrsIn_append_cons {b : UInt8}
    (hb : isAddrChar (asciiOfByte b) = false) (l m : Bytes) :
    addrsIn (l ++ b :: m) = addrsIn l ++ addrsIn m := by
  rw [addrsIn, asciiFromBytes_append]
  exact allMatches_addr_append_cons hb _ _

theorem addrsIn_varint (n : Nat) {b : UInt8}
    (hb : isAddrChar (asciiOfByte b) = false) (rest : Bytes) :
    addrsIn (varint n ++ b :: rest) = addrsIn rest := by
  obtain ⟨k, c, hvarint⟩ := ascii_varint n
  have hnone : ∀ k, allMatches addrWidth (List.replicate k nul ++ [c]) =
      [] := by
    intro k
    induction k with
    | zero => exact allMatches_addr_of_short (by simp)
    | succ k ih =>
        rw [List.replicate_succ, List.cons_append,
          allMatches_addr_cons isAddrChar_nul]
        exact ih
  rw [addrsIn_append_cons hb, addrsIn, hvarint, hnone, List.nil_append]

theorem isPrintable_of_isAddrChar {c : Char} (h : isAddrChar c = true) :
    isPrintable c = true := by
  have hcode := isAddrChar_iff.mp h
  simp only [isPrintable, Bool.and_eq_true, decide_eq_true_eq]
  omega

theorem ascii_address (addr : IreAddr) :
    asciiFromBytes (utf8 addr.text) = addr.text :=
  ascii_utf8_of_printable fun c hc =>
    isPrintable_of_isAddrChar (addr.isAddrChar_of_mem c hc)

theorem addrsIn_append {rest : Bytes} (hrest : EndsAddr rest) (l : Bytes) :
    addrsIn (l ++ rest) = addrsIn l ++ addrsIn rest := by
  cases rest with
  | nil => simp [addrsIn, asciiFromBytes, allMatches, matchesFrom]
  | cons b rest =>
      have hb := hrest b rest rfl
      rw [addrsIn_append_cons hb, addrsIn_cons hb]

theorem addrsIn_address (addr : IreAddr) {rest : Bytes}
    (hrest : EndsAddr rest) :
    addrsIn (varint (utf8 addr.text).length ++ (utf8 addr.text ++ rest)) =
      addr.text :: addrsIn rest := by
  have hlength : (utf8 addr.text).length = addr.text.length := by
    have hascii := congrArg List.length (ascii_address addr)
    rwa [asciiFromBytes, List.length_map] at hascii
  obtain ⟨hge, hle⟩ := addr.length_bounds
  have hbyte : (UInt8.ofNat addr.text.length).toNat = addr.text.length := by
    rw [UInt8.toNat_ofNat']
    omega
  have hchar : asciiOfByte (UInt8.ofNat addr.text.length) ≠ 'i' := by
    have hall : ∀ n < 63, 42 ≤ n → Char.ofNat n ≠ 'i' := by decide
    rw [asciiOfByte_of_printable (by omega) (by omega), hbyte]
    exact hall _ (by omega) hge
  rw [hlength, varint_of_lt (by omega), ← List.append_assoc,
    addrsIn_append hrest, List.singleton_append]
  have hself : addrsIn (UInt8.ofNat addr.text.length :: utf8 addr.text) =
      [addr.text] := by
    rw [addrsIn, asciiFromBytes, List.map_cons, ← asciiFromBytes,
      ascii_address, allMatches_cons_of_width_eq_zero (addrWidth_cons hchar _),
      allMatches_ireAddr]
  rw [hself]
  rfl

theorem addrsIn_send {tx : TxRaw} {msg : MsgSend}
    (h : tx.body.messages = [msg.toAny]) :
    addrsIn tx.encode = msg.fromAddress.text :: msg.toAddress.text ::
      addrsIn (msg.afterRecipient tx) := by
  have htag : tag 1 2 = [10] ∧ tag 2 2 = [18] := by decide
  have hten : isAddrChar (asciiOfByte 10) = false := by decide
  have height : isAddrChar (asciiOfByte 18) = false := by decide
  have hlength : varint (utf8 MsgSend.typeUrl).length = [28] := by decide
  have hurl : addrsIn (utf8 MsgSend.typeUrl) = [] := by
    apply allMatches_addr_of_short
    decide
  rw [encode_of_send h, htag.1, htag.2, hlength]
  simp only [List.singleton_append]
  rw [addrsIn_cons hten, addrsIn_varint _ hten, addrsIn_varint _ hten,
    addrsIn_cons (by decide), addrsIn_append_cons height, hurl,
    List.nil_append, addrsIn_varint _ hten,
    addrsIn_address _ (apart_cons (by decide) _).endsAddr,
    addrsIn_cons height,
    addrsIn_address _ (apart_afterRecipient msg tx).endsAddr]

/-! ## Sample sends -/

def addrA : IreAddr :=
  ⟨"ire1aaaaaaaaaaaaaaaaaaaaaaaaaaaaaaaaaaaaaa".toList, by decide⟩

def addrB : IreAddr :=
  ⟨"ire1bbbbbbbbbbbbbbbbbbbbbbbbbbbbbbbbbbbbbb".toList, by decide⟩

def sendTx (msg : MsgSend) (memo : Text) : TxRaw where
  body := { messages := [msg.toAny], memo := memo, timeoutHeight := 0
            unordered := false, timeoutTimestamp := none
            extensionOptions := [], nonCriticalExtensionOptions := [] }
  authInfo := [1]
  signatures := [[2]]

def oneUire : Coin := ⟨"uire".toList, 1⟩

def payment : MsgSend := ⟨addrA, addrB, [oneUire]⟩

def selfPayment : MsgSend := ⟨addrA, addrA, [oneUire]⟩

end IreBlockchain.Explorer
