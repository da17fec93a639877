import IreBlockchain.Explorer.Wallet
import IreBlockchain.TokenFactory.Types
import Mathlib.Algebra.Order.BigOperators.Group.List
import Mathlib.Algebra.Order.Group.Nat

/-!
# The amount a send is shown with

The wallet reads an amount from the first `uire` of the printable bytes that
digits follow.  The coins of a send come before everything else that can name
the denom, and each of them is read by itself.
-/

namespace IreBlockchain.Explorer

open IreBlockchain.Foundation

def uire : Text := "uire".toList

def MsgSend.uireAmount (msg : MsgSend) : Nat :=
  ((msg.amount.filter fun coin => coin.denom = uire).map Coin.amount).sum

def IreAddr.Bech32 (addr : IreAddr) : Prop :=
  ∀ c ∈ addr.text.drop addrPrefix.length,
    c ∈ "qpzry9x8gf2tvdw0s3jn54khce6mua7l".toList

instance (addr : IreAddr) : Decidable addr.Bech32 :=
  decidable_of_iff
    ((addr.text.drop addrPrefix.length).all
      (· ∈ "qpzry9x8gf2tvdw0s3jn54khce6mua7l".toList) = true)
    List.all_iff_forall_prop

/-- Coins with a denom of the SDK's form and an amount of at most 256 bits. -/
structure Coin.Valid (coin : Coin) : Prop where
  denom : TokenFactory.denomFormat coin.denom = true
  amount : coin.amount < 2 ^ 256

structure MsgSend.Valid (msg : MsgSend) : Prop where
  fromAddress : msg.fromAddress.Bech32
  toAddress : msg.toAddress.Bech32
  coins : ∀ coin ∈ msg.amount, coin.Valid

/-! ## What a coin is read as -/

def leadingDigits (text : Text) : Option Text :=
  let digits := (text.takeWhile isDigit).take 20
  if digits = [] then none else some digits

def lengthChar (length : Nat) : Char :=
  (asciiFromBytes (varint length)).getLastD nul

def Coin.denomField (coin : Coin) : Text :=
  lengthChar (utf8 coin.denom).length :: coin.denom

/--
What is read behind a denom that ends in `uire`: the amount, unless the byte of
its length is printable.  A length that is a digit is read with the amount.
-/
def Coin.amountRead (coin : Coin) : Option Text :=
  let digits := decimal coin.amount
  if digits.length < 32 then some (digits.take 20)
  else leadingDigits (Char.ofNat digits.length :: digits)

def Coin.shown (coin : Coin) : Option Text :=
  coin.denomField.tails.findSome? fun text =>
    if text = uire then coin.amountRead
    else if uire <+: text then leadingDigits (text.drop uire.length)
    else none

/-! ## Reading part by part -/

def amountIn (bytes : Bytes) : Option Text :=
  (asciiFromBytes bytes).tails.findSome? amountAfterDenom

def amountBefore (bytes : Bytes) : Option Text :=
  (asciiFromBytes bytes).tails.findSome? amountBeforeDenom

theorem extractUireAmount_eq (bytes : Bytes) :
    extractUireAmount (asciiFromBytes bytes) =
      ((amountIn bytes).or (amountBefore bytes)).getD "0".toList := by
  have hin : (asciiFromBytes bytes).tails.findSome? amountAfterDenom =
      amountIn bytes := rfl
  rw [extractUireAmount, hin]
  cases amountIn bytes <;> rfl

theorem amountAfterDenom_of_not_prefix {text : Text} (h : ¬ uire <+: text) :
    amountAfterDenom text = none := by
  rw [amountAfterDenom]
  exact if_neg fun hfront => h hfront.1

theorem amountAfterDenom_uire {k : Nat} (hk : k ≤ 4) {text : Text}
    (htext : text.head? ≠ some nul) :
    amountAfterDenom (uire ++ (List.replicate k nul ++ text)) =
      leadingDigits text := by
  have htake : (List.replicate k nul ++ text).takeWhile (· = nul) =
      List.replicate k nul := by
    rw [List.takeWhile_append_of_pos (by simp)]
    cases text with
    | nil => simp
    | cons c text =>
        have hc : c ≠ nul := by simpa using htext
        simp [hc]
  have hdrop : (List.replicate k nul ++ text).dropWhile (· = nul) = text := by
    rw [List.dropWhile_append_of_pos (by simp)]
    cases text with
    | nil => rfl
    | cons c text =>
        have hc : c ≠ nul := by simpa using htext
        simp [hc]
  rw [amountAfterDenom, leadingDigits]
  simp only [show "uire".toList = uire from rfl,
    show "uire".length = uire.length from rfl, List.drop_left, htake, hdrop,
    List.length_replicate, List.prefix_append, hk, true_and]
  by_cases hdigits : (text.takeWhile isDigit).take 20 = [] <;> simp [hdigits]

theorem keyword_uire : Keyword uire := by decide

theorem amountIn_append {l m : Bytes} (hm : Apart m) (hl : ¬ Occurs uire l) :
    amountIn (l ++ m) = amountIn m := by
  rw [amountIn, asciiFromBytes_append]
  apply findSome?_tails_append_of_none
  intro suffix _ hsuffix
  apply amountAfterDenom_of_not_prefix
  intro hfront
  apply hl
  have hinfix : suffix <:+: asciiFromBytes l := hsuffix.isInfix
  cases m with
  | nil =>
      rw [asciiFromBytes, List.map_nil, List.append_nil] at hfront
      exact hfront.isInfix.trans hinfix
  | cons b m =>
      have hb := keyword_uire.not_mem (hm b m rfl)
      rw [asciiFromBytes, List.map_cons, prefix_append_separator_iff hb]
        at hfront
      exact hfront.isInfix.trans hinfix

/-! ## One coin -/

section Coin

variable {coin : Coin} (h : coin.Valid)

include h

theorem denom_printable : ∀ c ∈ coin.denom, isPrintable c = true := by
  have hformat := h.denom
  cases hdenom : coin.denom with
  | nil => simp
  | cons first rest =>
      rw [hdenom] at hformat
      simp only [TokenFactory.denomFormat, Bool.and_eq_true, List.all_eq_true,
        Bool.or_eq_true] at hformat
      have hother : ∀ c ∈ "/:._-".toList, isPrintable c = true :=
        List.all_eq_true.mp (by decide)
      intro c hc
      cases List.mem_cons.mp hc with
      | inl heq =>
          rw [heq]
          apply isPrintable_of_isAlphanum
          simp [Char.isAlphanum, hformat.1.1.1]
      | inr hmem =>
          cases hformat.2 c hmem with
          | inl hc => exact isPrintable_of_isAlphanum hc
          | inr hc => exact hother c (List.contains_iff_mem.mp hc)

theorem denom_ne_nil : utf8 coin.denom ≠ [] := by
  rw [ne_eq, utf8_eq_nil_iff]
  intro hnil
  have hformat := h.denom
  rw [hnil] at hformat
  cases hformat

theorem decimal_length_lt : (decimal coin.amount).length < 127 := by
  have hlt : coin.amount < 10 ^ 126 := h.amount.trans (by decide)
  have hle : (decimal coin.amount).length ≤ 126 :=
    (Nat.length_toDigits_le_iff (by decide) (by decide)).mpr hlt
  exact Nat.lt_succ_of_le hle

end Coin

theorem isDigit_of_mem_decimal {n : Nat} :
    ∀ c ∈ decimal n, isDigit c = true := by
  intro c hc
  have hdigit : c.isDigit = true :=
    Nat.isDigit_of_mem_toDigits (by decide) (by decide) hc
  simpa [isDigit, Char.isDigit, Char.le_def, ge_iff_le] using hdigit

theorem not_isDigit_nul : isDigit nul = false := by decide

theorem decimal_ne_nil (n : Nat) : decimal n ≠ [] := Nat.toDigits_ne_nil

theorem ascii_decimal (n : Nat) :
    asciiFromBytes (utf8 (decimal n)) = decimal n := by
  apply ascii_utf8_of_printable
  intro c hc
  apply isPrintable_of_isAddrChar
  simp [isAddrChar, isDigit_of_mem_decimal c hc]

theorem ascii_varint_eq (n : Nat) :
    ∃ k, asciiFromBytes (varint n) = List.replicate k nul ++ [lengthChar n] := by
  obtain ⟨k, c, hvarint⟩ := ascii_varint n
  refine ⟨k, ?_⟩
  rw [lengthChar, hvarint]
  simp

theorem ascii_varint_of_lt {n : Nat} (h : n < 127) :
    asciiFromBytes (varint n) =
      [if n < 32 then nul else Char.ofNat n] := by
  have hbyte : (UInt8.ofNat n).toNat = n := by
    rw [UInt8.toNat_ofNat']
    omega
  rw [varint_of_lt (by omega), asciiFromBytes, List.map_singleton]
  congr 1
  split
  next hlt => exact asciiOfByte_of_unprintable (Or.inl (by omega))
  next hge => rw [asciiOfByte_of_printable (by omega) (by omega), hbyte]

theorem leadingDigits_append {rest : Text}
    (hrest : ∀ c more, rest = c :: more → isDigit c = false) (text : Text) :
    leadingDigits (text ++ rest) = leadingDigits text := by
  rw [leadingDigits, leadingDigits]
  cases rest with
  | nil => rw [List.append_nil]
  | cons c rest => rw [takeWhile_append_of_neg (hrest c rest rfl)]

theorem leadingDigits_append_nul (text rest : Text) :
    leadingDigits (text ++ nul :: rest) = leadingDigits text := by
  apply leadingDigits_append
  intro c more heq
  rw [← (List.cons.inj heq).1]
  exact not_isDigit_nul

theorem leadingDigits_decimal (n : Nat) :
    leadingDigits (decimal n) = some ((decimal n).take 20) := by
  have htake : (decimal n).takeWhile isDigit = decimal n :=
    List.takeWhile_eq_self_iff.mpr isDigit_of_mem_decimal
  have hne : (decimal n).take 20 ≠ [] := by
    simp [List.take_eq_nil_iff, decimal_ne_nil]
  rw [leadingDigits, htake]
  exact if_neg hne

theorem amountAfterDenom_coin {coin : Coin} (h : coin.Valid) {rest : Text}
    (hrest : ∀ c more, rest = c :: more → isDigit c = false) :
    amountAfterDenom (uire ++ (nul ::
      (asciiFromBytes (varint (decimal coin.amount).length) ++
        (decimal coin.amount ++ rest)))) = coin.amountRead := by
  have hhead : (decimal coin.amount ++ rest).head? ≠ some nul := by
    intro hnul
    cases hdecimal : decimal coin.amount with
    | nil => exact decimal_ne_nil _ hdecimal
    | cons d digits =>
        rw [hdecimal] at hnul
        have hdigit := isDigit_of_mem_decimal d (hdecimal ▸ List.mem_cons_self)
        rw [Option.some.inj hnul, not_isDigit_nul] at hdigit
        cases hdigit
  rw [ascii_varint_of_lt (decimal_length_lt h), Coin.amountRead]
  split
  next hlt =>
    rw [← leadingDigits_decimal, ← leadingDigits_append hrest]
    exact amountAfterDenom_uire (k := 2) (by decide) hhead
  next hge =>
    have hall : ∀ n < 127, 32 ≤ n → Char.ofNat n ≠ nul := by decide
    have hchar := hall _ (decimal_length_lt h) (Nat.not_lt.mp hge)
    rw [← leadingDigits_append hrest, List.cons_append]
    exact amountAfterDenom_uire (k := 1) (by decide) (by simpa using hchar)

theorem amountAfterDenom_denomField {coin : Coin} (h : coin.Valid)
    {rest : Text} (hrest : ∀ c more, rest = c :: more → isDigit c = false)
    {suffix : Text} (hsuffix : suffix <:+ coin.denomField) :
    amountAfterDenom (suffix ++ (nul ::
      (asciiFromBytes (varint (decimal coin.amount).length) ++
        (decimal coin.amount ++ rest)))) =
      if suffix = uire then coin.amountRead
      else if uire <+: suffix then leadingDigits (suffix.drop uire.length)
      else none := by
  split
  next heq =>
    rw [heq]
    exact amountAfterDenom_coin h hrest
  next hne =>
    split
    next hfront =>
      obtain ⟨text, rfl⟩ := hfront
      cases text with
      | nil => exact absurd (List.append_nil _) hne
      | cons d text =>
          have hmem : d ∈ coin.denom := by
            rw [Coin.denomField, List.suffix_cons_iff] at hsuffix
            cases hsuffix with
            | inl heq =>
                have hdenom := (List.cons.inj heq).2
                rw [← hdenom]
                simp
            | inr hsuffix =>
                apply hsuffix.subset
                simp
          have hd : d ≠ nul := by
            rintro rfl
            exact absurd (denom_printable h _ hmem) (by decide)
          rw [List.append_assoc, List.drop_left,
            ← leadingDigits_append_nul (d :: text)]
          exact amountAfterDenom_uire (k := 0) (by decide) (by simpa using hd)
    next hfront =>
      apply amountAfterDenom_of_not_prefix
      rwa [prefix_append_separator_iff keyword_uire.noNul]

theorem coinField_eq {coin : Coin} (h : coin.Valid) (m : Bytes) :
    messageField 3 coin.encode ++ m =
      tag 3 2 ++ varint coin.encode.length ++
        (tag 1 2 ++ varint (utf8 coin.denom).length ++ utf8 coin.denom ++
          (tag 2 2 ++ varint (decimal coin.amount).length ++
            utf8 (decimal coin.amount) ++ m)) := by
  have hamount : utf8 (decimal coin.amount) ≠ [] := by
    rw [ne_eq, utf8_eq_nil_iff]
    exact decimal_ne_nil _
  have hlength : (utf8 (decimal coin.amount)).length =
      (decimal coin.amount).length := by
    have hascii := congrArg List.length (ascii_decimal coin.amount)
    rwa [asciiFromBytes, List.length_map] at hascii
  rw [messageField]
  generalize coin.encode.length = n
  rw [Coin.encode, bytesField, if_neg (denom_ne_nil h), bytesField,
    if_neg hamount, messageField, messageField, hlength]
  simp only [List.append_assoc]

theorem not_occurs_amount {coin : Coin} (h : coin.Valid) :
    ¬ Occurs uire (tag 2 2 ++ varint (decimal coin.amount).length ++
      utf8 (decimal coin.amount)) := by
  intro hinfix
  have htag : asciiFromBytes (tag 2 2) = [nul] := by decide
  rw [Occurs, asciiFromBytes_append, asciiFromBytes_append, htag,
    ascii_varint_of_lt (decimal_length_lt h), ascii_decimal] at hinfix
  generalize (if (decimal coin.amount).length < 32 then nul
    else Char.ofNat (decimal coin.amount).length) = c at hinfix
  have hletter : ∀ d ∈ uire, isDigit d = false ∧ d ≠ nul :=
    List.all_iff_forall_prop.mp (by decide)
  have hmem : ∀ d ∈ uire, d = c := by
    intro d hd
    have hin := hinfix.subset hd
    simp only [List.mem_append, List.mem_singleton] at hin
    rcases hin with (hnul | hc) | hdigit
    · exact absurd hnul (hletter d hd).2
    · exact hc
    · have hdig := isDigit_of_mem_decimal d hdigit
      rw [(hletter d hd).1] at hdig
      cases hdig
  have hu : 'u' = c := hmem 'u' (by decide)
  have hi : 'i' = c := hmem 'i' (by decide)
  exact absurd (hu.trans hi.symm) (by decide)

theorem amountIn_coinField {coin : Coin} (h : coin.Valid) {m : Bytes}
    (hm : Apart m) :
    amountIn (messageField 3 coin.encode ++ m) =
      coin.shown.or (amountIn m) := by
  have hten : tag 1 2 = [10] := by decide
  have hlength : ¬ Occurs uire (tag 3 2 ++ varint coin.encode.length) := by
    have htag : tag 3 2 = [26] := by decide
    rw [htag, List.singleton_append, occurs_cons keyword_uire (by decide)]
    exact not_occurs_varint keyword_uire _
  have hdenom : Apart (tag 1 2 ++ varint (utf8 coin.denom).length ++
      utf8 coin.denom ++ (tag 2 2 ++ varint (decimal coin.amount).length ++
        utf8 (decimal coin.amount) ++ m)) := by
    rw [hten]
    exact apart_cons (by decide) _
  have hrest : ∀ c more, asciiFromBytes m = c :: more →
      isDigit c = false := by
    intro c more heq
    cases m with
    | nil => cases heq
    | cons b m =>
        rw [← (List.cons.inj heq).1]
        have hb := hm b m rfl
        have hall : ∀ c ∈ [nul, ' ', '*'], isDigit c = false :=
          List.all_iff_forall_prop.mp (by decide)
        exact hall _ hb
  rw [coinField_eq h, amountIn_append hdenom hlength,
    ← amountIn_append hm (not_occurs_amount h), amountIn, amountIn]
  obtain ⟨k, hvarint⟩ := ascii_varint_eq (utf8 coin.denom).length
  have hascii : asciiFromBytes (tag 1 2 ++
      varint (utf8 coin.denom).length ++ utf8 coin.denom ++
      (tag 2 2 ++ varint (decimal coin.amount).length ++
        utf8 (decimal coin.amount) ++ m)) =
      List.replicate (k + 1) nul ++ (coin.denomField ++
        (nul :: (asciiFromBytes (varint (decimal coin.amount).length) ++
          (decimal coin.amount ++ asciiFromBytes m)))) := by
    have htag : asciiFromBytes (tag 1 2) = [nul] ∧
        asciiFromBytes (tag 2 2) = [nul] := by decide
    simp only [asciiFromBytes_append, htag, hvarint, ascii_decimal,
      ascii_utf8_of_printable (denom_printable h), Coin.denomField]
    simp [List.replicate_succ]
  have htail : asciiFromBytes (tag 2 2 ++
      varint (decimal coin.amount).length ++ utf8 (decimal coin.amount) ++ m) =
      nul :: (asciiFromBytes (varint (decimal coin.amount).length) ++
        (decimal coin.amount ++ asciiFromBytes m)) := by
    have htag : asciiFromBytes (tag 2 2) = [nul] := by decide
    simp only [asciiFromBytes_append, htag, ascii_decimal]
    simp
  rw [hascii, htail, findSome?_tails_append_of_none]
  · apply findSome?_tails_append
    · rfl
    · intro suffix _ hsuffix
      exact amountAfterDenom_denomField h hrest hsuffix
  · intro suffix hne hsuffix
    apply amountAfterDenom_of_not_prefix
    cases suffix with
    | nil => exact absurd rfl hne
    | cons c suffix =>
        have hc : c = nul :=
          List.eq_of_mem_replicate (hsuffix.subset List.mem_cons_self)
        rw [hc, uire]
        simp [nul]

/-! ## The whole transaction -/

def TxRaw.afterCoins (tx : TxRaw) : Bytes :=
  bytesField 2 (utf8 tx.body.memo) ++ tx.body.encodeOptions ++ tx.encodeSigners

theorem apart_afterCoins (tx : TxRaw) : Apart tx.afterCoins :=
  ((apart_bytesField rfl (by decide) _).append
    (apart_encodeOptions tx.body)).append (apart_encodeSigners tx)

theorem amountIn_coins {coins : List Coin} (h : ∀ coin ∈ coins, coin.Valid)
    {m : Bytes} (hm : Apart m) :
    amountIn ((coins.flatMap fun coin => messageField 3 coin.encode) ++ m) =
      (coins.findSome? Coin.shown).or (amountIn m) := by
  induction coins with
  | nil => rfl
  | cons coin coins ih =>
      have hcoins : Apart ((coins.flatMap fun coin =>
          messageField 3 coin.encode) ++ m) :=
        (Apart.flatMap (fun _ => apart_messageField rfl (by decide) _) _).append
          hm
      rw [List.flatMap_cons, List.append_assoc,
        amountIn_coinField (h coin List.mem_cons_self) hcoins,
        ih fun coin hcoin => h coin (List.mem_cons_of_mem _ hcoin),
        List.findSome?_cons]
      cases coin.shown <;> rfl

theorem not_speltIn_address {addr : IreAddr} (h : addr.Bech32) :
    ¬ SpeltIn uire (utf8 addr.text) := by
  have hlength : (utf8 addr.text).length = addr.text.length := by
    have hascii := congrArg List.length (ascii_address addr)
    rwa [asciiFromBytes, List.length_map] at hascii
  obtain ⟨hge, hle⟩ := addr.length_bounds
  have hall : ∀ n < 127, 42 ≤ n → n ≤ 62 →
      (if n < 32 then nul else Char.ofNat n) ≠ 'u' := by decide
  have hchar := hall addr.text.length (by omega) hge hle
  have hdata : 'i' ∉ addr.text.drop addrPrefix.length :=
    fun hmem => absurd (h 'i' hmem) (by decide)
  have hfront : addrPrefix <+: addr.text := by
    have hvalid := addr.isIreAddr_text
    simp only [isIreAddr, Bool.and_eq_true, decide_eq_true_eq] at hvalid
    exact hvalid.1.1.1
  obtain ⟨data, htext⟩ := hfront
  rw [← htext, List.drop_left] at hdata
  intro hinfix
  rw [SpeltIn, Occurs, asciiFromBytes_append, ascii_address, hlength,
    ascii_varint_of_lt (by omega), List.singleton_append,
    List.infix_cons_iff] at hinfix
  rcases hinfix with hstart | hinfix
  · exact hchar (List.cons_prefix_cons.mp hstart).1.symm
  · -- An `i` inside would be in the data.
    rw [← htext, show addrPrefix = 'i' :: "re1".toList from rfl,
      List.cons_append, List.infix_cons_iff] at hinfix
    rcases hinfix with hstart | hinfix
    · exact absurd (List.cons_prefix_cons.mp hstart).1 (by decide)
    · have hi : 'i' ∈ "re1".toList ++ data := hinfix.subset (by decide)
      cases List.mem_append.mp hi with
      | inl hi => exact absurd hi (by decide)
      | inr hi => exact hdata hi

def MsgSend.beforeCoins (msg : MsgSend) (tx : TxRaw) : Bytes :=
  10 :: varint tx.body.encode.length ++
    (10 :: varint msg.toAny.encode.length ++
      (10 :: (varint (utf8 typeUrl).length ++ utf8 typeUrl) ++
        (18 :: varint msg.encode.length ++
          (10 :: (varint (utf8 msg.fromAddress.text).length ++
              utf8 msg.fromAddress.text) ++
            18 :: (varint (utf8 msg.toAddress.text).length ++
              utf8 msg.toAddress.text)))))

theorem not_occurs_field {b : UInt8} {l m : Bytes}
    (hb : asciiOfByte b ∈ [nul, ' ', '*']) (hm : Apart m)
    (hl : ¬ Occurs uire l) (hnot : ¬ Occurs uire m) :
    ¬ Occurs uire (b :: l ++ m) := by
  rw [List.cons_append, occurs_cons keyword_uire hb,
    occurs_append keyword_uire hm]
  exact not_or.mpr ⟨hl, hnot⟩

theorem not_occurs_beforeCoins {msg : MsgSend} (hvalid : msg.Valid)
    (tx : TxRaw) : ¬ Occurs uire (msg.beforeCoins tx) := by
  have hten : asciiOfByte 10 ∈ [nul, ' ', '*'] := by decide
  have height : asciiOfByte 18 ∈ [nul, ' ', '*'] := by decide
  have hurl : ¬ Occurs uire (varint (utf8 MsgSend.typeUrl).length ++
      utf8 MsgSend.typeUrl) := by
    rw [Occurs]
    decide
  have hlength := not_occurs_varint keyword_uire
  apply not_occurs_field hten (apart_cons hten _) (hlength _)
  apply not_occurs_field hten (apart_cons hten _) (hlength _)
  apply not_occurs_field hten (apart_cons height _) hurl
  apply not_occurs_field height (apart_cons hten _) (hlength _)
  apply not_occurs_field hten (apart_cons height _)
    (not_speltIn_address hvalid.fromAddress)
  rw [occurs_cons keyword_uire height]
  exact not_speltIn_address hvalid.toAddress

section Send

variable {tx : TxRaw} {msg : MsgSend} (h : tx.body.messages = [msg.toAny])
  (hvalid : msg.Valid)

include h hvalid

theorem amountIn_send : amountIn tx.encode =
    (msg.amount.findSome? Coin.shown).or (amountIn tx.afterCoins) := by
  have htag : tag 1 2 = [10] ∧ tag 2 2 = [18] := by decide
  have hsplit : tx.encode = msg.beforeCoins tx ++ msg.afterRecipient tx := by
    rw [encode_of_send h, htag.1, htag.2, MsgSend.beforeCoins]
    simp only [List.append_assoc, List.cons_append, List.nil_append]
  have hrest : msg.afterRecipient tx =
      (msg.amount.flatMap fun coin => messageField 3 coin.encode) ++
        tx.afterCoins := by
    simp only [MsgSend.afterRecipient, TxRaw.afterCoins, List.append_assoc]
  rw [hsplit, amountIn_append (apart_afterRecipient msg tx)
    (not_occurs_beforeCoins hvalid tx), hrest,
    amountIn_coins hvalid.coins (apart_afterCoins tx)]

end Send

/-! ## The amount shown -/

theorem length_le_of_amountAfterDenom {text digits : Text}
    (h : amountAfterDenom text = some digits) : digits.length ≤ 20 := by
  simp only [amountAfterDenom] at h
  split at h
  next =>
    cases h
    exact List.length_take_le _ _
  next => cases h

theorem length_le_of_amountBeforeDenom {text digits : Text}
    (h : amountBeforeDenom text = some digits) : digits.length ≤ 20 := by
  simp only [amountBeforeDenom] at h
  split at h
  next hfound =>
    cases h
    exact hfound.2.1
  next => cases h

/-- What the wallet reads where the coins are not read. -/
def TxRaw.amountElsewhere (tx : TxRaw) : Option Text :=
  (amountIn tx.afterCoins).or (amountBefore tx.encode)

theorem length_le_of_amountElsewhere {tx : TxRaw} {digits : Text}
    (h : tx.amountElsewhere = some digits) : digits.length ≤ 20 := by
  rw [TxRaw.amountElsewhere] at h
  cases hafter : amountIn tx.afterCoins with
  | some found =>
      rw [hafter] at h
      cases h
      obtain ⟨text, -, hfound⟩ := List.exists_of_findSome?_eq_some hafter
      exact length_le_of_amountAfterDenom hfound
  | none =>
      rw [hafter, Option.none_or] at h
      obtain ⟨text, -, hfound⟩ := List.exists_of_findSome?_eq_some h
      exact length_le_of_amountBeforeDenom hfound

theorem lt_length_decimal_iff {n k : Nat} (hk : 0 < k) :
    k < (decimal n).length ↔ 10 ^ k ≤ n := by
  have hle : (decimal n).length ≤ k ↔ n < 10 ^ k :=
    Nat.length_toDigits_le_iff (by decide) hk
  omega

theorem length_of_amountRead_eq_none {coin : Coin}
    (h : coin.amountRead = none) : 31 < (decimal coin.amount).length := by
  rw [Coin.amountRead] at h
  split at h
  next => cases h
  next hge => exact Nat.not_lt.mp hge

theorem length_decimal_of_not_shown {msg : MsgSend}
    (hnone : msg.amount.findSome? Coin.shown = none)
    (hpos : msg.uireAmount ≠ 0) : 31 < (decimal msg.uireAmount).length := by
  rw [MsgSend.uireAmount] at hpos ⊢
  obtain ⟨n, hn, hamount⟩ :=
    List.sum_pos_iff_exists_pos_nat.mp (Nat.pos_of_ne_zero hpos)
  have hle := List.single_le_sum (fun _ _ => Nat.zero_le _) n hn
  obtain ⟨coin, hcoin, rfl⟩ := List.mem_map.mp hn
  obtain ⟨hmem, hdenom⟩ := List.mem_filter.mp hcoin
  have hread : coin.amountRead = none := by
    have hshown := List.findSome?_eq_none_iff.mp hnone coin hmem
    have hsuffix : uire ∈ coin.denomField.tails := by
      rw [List.mem_tails, Coin.denomField, of_decide_eq_true hdenom]
      exact List.suffix_cons _ _
    simpa using List.findSome?_eq_none_iff.mp hshown uire hsuffix
  have hlength := length_of_amountRead_eq_none hread
  rw [lt_length_decimal_iff (by decide)] at hlength ⊢
  exact hlength.trans hle

/--
The first coin that is read at all is read as the uire that the send carries;
or no coin is read, the send carries no uire, and what is read elsewhere is no
amount or zero.
-/
def MsgSend.ReadRight (msg : MsgSend) (tx : TxRaw) : Prop :=
  match msg.amount.findSome? Coin.shown with
  | some digits => digits = decimal msg.uireAmount
  | none => msg.uireAmount = 0 ∧
      ∀ digits ∈ tx.amountElsewhere, digits = "0".toList

def feeOf (coin : Coin) : Bytes :=
  messageField 2 (messageField 1 coin.encode ++ varintField 2 200000)

def addrQ : IreAddr :=
  ⟨"ire1qqqqqqqqqqqqqqqqqqqqqqqqqqqqqqqqqqqqqq".toList, by decide⟩

def addrP : IreAddr :=
  ⟨"ire1pppppppppppppppppppppppppppppppppppppp".toList, by decide⟩

def sendOf (coin : Coin) : TxRaw where
  body := { messages := [(MsgSend.mk addrQ addrP [coin]).toAny], memo := []
            timeoutHeight := 0, unordered := false, timeoutTimestamp := none
            extensionOptions := [], nonCriticalExtensionOptions := [] }
  authInfo := feeOf ⟨uire, 500⟩
  signatures := [[2]]

end IreBlockchain.Explorer
