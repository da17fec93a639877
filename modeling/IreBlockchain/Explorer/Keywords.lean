import IreBlockchain.Explorer.Transaction

/-!
# Keywords in the bytes of a transaction

A keyword is found in the printable bytes exactly if it is in those of a field.
The byte before a field, the last of its length, can be the keyword's first
letter.
-/

namespace IreBlockchain.Explorer

open IreBlockchain.Foundation

/-- A text without the characters that stand between the fields. -/
structure Keyword (keyword : Text) : Prop where
  long : 2 ≤ keyword.length
  noNul : nul ∉ keyword
  noSpace : ' ' ∉ keyword
  noStar : '*' ∉ keyword

instance (keyword : Text) : Decidable (Keyword keyword) :=
  decidable_of_iff (2 ≤ keyword.length ∧ nul ∉ keyword ∧ ' ' ∉ keyword ∧
      '*' ∉ keyword)
    ⟨fun ⟨h, h₁, h₂, h₃⟩ => ⟨h, h₁, h₂, h₃⟩, fun ⟨h, h₁, h₂, h₃⟩ => ⟨h, h₁, h₂, h₃⟩⟩

theorem Keyword.ne_nil {keyword : Text} (h : Keyword keyword) :
    keyword ≠ [] := by
  rintro rfl
  exact absurd h.long (by decide)

def Apart (bytes : Bytes) : Prop :=
  ∀ b rest, bytes = b :: rest → asciiOfByte b ∈ [nul, ' ', '*']

theorem apart_nil : Apart [] := by
  intro b rest h
  cases h

theorem apart_cons {b : UInt8} (h : asciiOfByte b ∈ [nul, ' ', '*'])
    (rest : Bytes) : Apart (b :: rest) := by
  intro c more heq
  cases heq
  exact h

theorem Apart.append {l m : Bytes} (hl : Apart l) (hm : Apart m) :
    Apart (l ++ m) := by
  cases l with
  | nil => exact hm
  | cons b l => exact apart_cons (hl b l rfl) _

theorem Apart.flatMap {α : Type} {f : α → Bytes} (hf : ∀ a, Apart (f a))
    (l : List α) : Apart (l.flatMap f) := by
  induction l with
  | nil => exact apart_nil
  | cons a l ih => exact (hf a).append ih

theorem apart_messageField {field : Nat} {b : UInt8} {more : Bytes}
    (htag : tag field 2 = b :: more) (hb : asciiOfByte b ∈ [nul, ' ', '*'])
    (payload : Bytes) : Apart (messageField field payload) := by
  rw [messageField, htag]
  exact apart_cons hb _

theorem apart_bytesField {field : Nat} {b : UInt8} {more : Bytes}
    (htag : tag field 2 = b :: more) (hb : asciiOfByte b ∈ [nul, ' ', '*'])
    (payload : Bytes) : Apart (bytesField field payload) := by
  rw [bytesField]
  split
  next => exact apart_nil
  next => exact apart_messageField htag hb payload

theorem apart_varintField {field : Nat} {b : UInt8} {more : Bytes}
    (htag : tag field 0 = b :: more) (hb : asciiOfByte b ∈ [nul, ' ', '*'])
    (n : Nat) : Apart (varintField field n) := by
  rw [varintField]
  split
  next => exact apart_nil
  next =>
    rw [htag]
    exact apart_cons hb _

theorem apart_encodeOptions (body : TxBody) : Apart body.encodeOptions := by
  have htimeout :
      Apart ((body.timeoutTimestamp.map (messageField 5)).getD []) := by
    cases body.timeoutTimestamp with
    | none => exact apart_nil
    | some payload => exact apart_messageField rfl (by decide) payload
  have hextension : tag 1023 2 = [0xfa, 0x3f] := by decide +kernel
  have hnonCritical : tag 2047 2 = [0xfa, 0x7f] := by decide +kernel
  rw [TxBody.encodeOptions]
  apply Apart.append
  · apply Apart.append
    · apply Apart.append
      · apply Apart.append
        · exact apart_varintField rfl (by decide) _
        · exact apart_varintField rfl (by decide) _
      · exact htimeout
    · exact Apart.flatMap (apart_messageField hextension (by decide)) _
  · exact Apart.flatMap (apart_messageField hnonCritical (by decide)) _

theorem apart_encodeSigners (tx : TxRaw) : Apart tx.encodeSigners := by
  apply Apart.append
  · exact apart_bytesField rfl (by decide) _
  · exact Apart.flatMap (apart_messageField rfl (by decide)) _

/-! ## Where a keyword is -/

def Occurs (keyword : Text) (bytes : Bytes) : Prop :=
  keyword <:+: asciiFromBytes bytes

/-- The keyword is in the bytes of a field, its length included. -/
def SpeltIn (keyword : Text) (field : Bytes) : Prop :=
  Occurs keyword (varint field.length ++ field)

section Occurrences

variable {keyword : Text} (hk : Keyword keyword)

include hk

theorem Keyword.not_mem {b : UInt8} (hb : asciiOfByte b ∈ [nul, ' ', '*']) :
    asciiOfByte b ∉ keyword := by
  simp only [List.mem_cons, List.not_mem_nil, or_false] at hb
  rcases hb with h | h | h
  · exact h ▸ hk.noNul
  · exact h ▸ hk.noSpace
  · exact h ▸ hk.noStar

theorem not_occurs_nil : ¬ Occurs keyword [] := by
  intro h
  exact hk.ne_nil (List.infix_nil.mp h)

theorem occurs_cons {b : UInt8} (hb : asciiOfByte b ∈ [nul, ' ', '*'])
    (rest : Bytes) : Occurs keyword (b :: rest) ↔ Occurs keyword rest := by
  have hsplit := infix_append_separator_iff hk.ne_nil (hk.not_mem hb)
    (l := []) (m := asciiFromBytes rest)
  exact hsplit.trans (or_iff_right (not_occurs_nil hk))

theorem occurs_append {m : Bytes} (hm : Apart m) (l : Bytes) :
    Occurs keyword (l ++ m) ↔ Occurs keyword l ∨ Occurs keyword m := by
  cases m with
  | nil => simp [not_occurs_nil hk]
  | cons b m =>
      have hb := hm b m rfl
      rw [occurs_cons hk hb, Occurs, asciiFromBytes_append]
      exact infix_append_separator_iff hk.ne_nil (hk.not_mem hb)

theorem not_occurs_varint (n : Nat) : ¬ Occurs keyword (varint n) := by
  obtain ⟨k, c, hvarint⟩ := ascii_varint n
  rw [Occurs, hvarint]
  clear hvarint
  induction k with
  | zero =>
      intro h
      have hle := h.length_le
      have hlong := hk.long
      simp only [List.replicate_zero, List.nil_append, List.length_singleton]
        at hle
      omega
  | succ k ih =>
      intro h
      have hsplit := (infix_append_separator_iff hk.ne_nil hk.noNul
        (l := [])).mp h
      cases hsplit with
      | inl h => exact not_occurs_nil hk h
      | inr h => exact ih h

theorem occurs_messageField {field : Nat} {b : UInt8}
    (htag : tag field 2 = [b]) (hb : asciiOfByte b ∈ [nul, ' ', '*'])
    (payload : Bytes) :
    Occurs keyword (messageField field payload) ↔ SpeltIn keyword payload := by
  rw [messageField, htag, List.append_assoc, List.singleton_append,
    occurs_cons hk hb, SpeltIn]

theorem occurs_bytesField {field : Nat} {b : UInt8}
    (htag : tag field 2 = [b]) (hb : asciiOfByte b ∈ [nul, ' ', '*'])
    (payload : Bytes) :
    Occurs keyword (bytesField field payload) ↔ SpeltIn keyword payload := by
  rw [bytesField]
  split
  next hnil =>
    rw [hnil, SpeltIn, List.append_nil]
    exact iff_of_false (not_occurs_nil hk) (not_occurs_varint hk _)
  next => exact occurs_messageField hk htag hb payload

theorem speltIn_of_apart {payload : Bytes} (h : Apart payload) :
    SpeltIn keyword payload ↔ Occurs keyword payload := by
  rw [SpeltIn, occurs_append hk h]
  exact or_iff_right (not_occurs_varint hk _)

theorem occurs_encodeMessages (body : TxBody) :
    Occurs keyword body.encodeMessages ↔ ∃ msg ∈ body.messages,
      SpeltIn keyword (utf8 msg.typeUrl) ∨ SpeltIn keyword msg.value := by
  have hurl (msg : AnyMsg) : Apart (bytesField 1 (utf8 msg.typeUrl)) :=
    apart_bytesField rfl (by decide) _
  have hvalue (msg : AnyMsg) : Apart (bytesField 2 msg.value) :=
    apart_bytesField rfl (by decide) _
  have hmsg (msg : AnyMsg) : Occurs keyword (messageField 1 msg.encode) ↔
      SpeltIn keyword (utf8 msg.typeUrl) ∨ SpeltIn keyword msg.value := by
    rw [occurs_messageField hk rfl (by decide), AnyMsg.encode,
      speltIn_of_apart hk ((hurl msg).append (hvalue msg)),
      occurs_append hk (hvalue msg), occurs_bytesField hk rfl (by decide),
      occurs_bytesField hk rfl (by decide)]
  rw [TxBody.encodeMessages]
  generalize body.messages = messages
  induction messages with
  | nil => simp [not_occurs_nil hk]
  | cons msg messages ih =>
      have hrest : Apart (messages.flatMap fun msg =>
          messageField 1 msg.encode) :=
        Apart.flatMap (fun _ => apart_messageField rfl (by decide) _) messages
      rw [List.flatMap_cons, occurs_append hk hrest, hmsg]
      simp only [List.mem_cons, exists_eq_or_imp]
      exact or_congr_right ih

theorem occurs_encode (tx : TxRaw) :
    Occurs keyword tx.encode ↔
      (∃ msg ∈ tx.body.messages,
        SpeltIn keyword (utf8 msg.typeUrl) ∨ SpeltIn keyword msg.value) ∨
      SpeltIn keyword (utf8 tx.body.memo) ∨ Occurs keyword tx.afterMemo := by
  have hmemo : Apart (bytesField 2 (utf8 tx.body.memo)) :=
    apart_bytesField rfl (by decide) _
  have hoptions := apart_encodeOptions tx.body
  have hmessages : Apart tx.body.encodeMessages :=
    Apart.flatMap (fun _ => apart_messageField rfl (by decide) _) _
  have hbody : Apart tx.body.encode := (hmessages.append hmemo).append hoptions
  rw [TxRaw.encode, occurs_append hk (apart_encodeSigners tx),
    occurs_bytesField hk rfl (by decide), speltIn_of_apart hk hbody,
    TxBody.encode, occurs_append hk hoptions, occurs_append hk hmemo,
    occurs_encodeMessages hk, occurs_bytesField hk rfl (by decide),
    TxRaw.afterMemo, occurs_append hk (apart_encodeSigners tx), or_assoc,
    or_assoc]

end Occurrences

end IreBlockchain.Explorer
