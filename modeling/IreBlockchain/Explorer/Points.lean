import IreBlockchain.Foundation.JsonPlain
import IreBlockchain.Explorer.BetMemos
import IreBlockchain.Explorer.Keywords

/-!
# Usage points

`scoreTx` looks for words anywhere in a transaction; the rules are about its
messages and the start of its memo.
-/

namespace IreBlockchain.Explorer

open IreBlockchain.Foundation

def inscriptionPoints (ascii : Text) : Nat :=
  if occurs marker ascii then 5 else 0

def betPoints (ascii : Text) : Nat :=
  if occurs "ire-bet".toList ascii then 10 else 0

def poolPoints (ascii : Text) : Nat :=
  if occurs "fund-community-pool".toList ascii ||
      occurs "CommunityPool".toList ascii then 20
  else 0

def validatorPoints (ascii : Text) : Nat :=
  if occurs "IREVAL1".toList ascii then 25 else 0

def scoreTx (ascii : Text) : Nat :=
  1 + inscriptionPoints ascii + betPoints ascii + poolPoints ascii +
    validatorPoints ascii

/-! ## The rules -/

def fundTypeUrl : Text :=
  "/cosmos.distribution.v1beta1.MsgFundCommunityPool".toList

def FundsPool (tx : TxRaw) : Prop :=
  ∃ msg ∈ tx.body.messages, msg.typeUrl = fundTypeUrl

/-- The memo is an inscription of a bet. -/
def IsBetMemo (fmt : NumberFormat) (memo : Text) : Prop :=
  ∃ text o, memo = betPrefix ++ text ∧ Json.parse fmt text = some o ∧
    IsIreBet o

/-- A field of the transaction, or what follows the memo, has the word. -/
def HasWord (tx : TxRaw) (word : Text) : Prop :=
  (∃ msg ∈ tx.body.messages,
    SpeltIn word (utf8 msg.typeUrl) ∨ SpeltIn word msg.value) ∨
  SpeltIn word (utf8 tx.body.memo) ∨ Occurs word tx.afterMemo

theorem occurs_encode_iff {tx : TxRaw} {word : Text} (hword : Keyword word) :
    occurs word (asciiFromBytes tx.encode) = true ↔ HasWord tx word := by
  rw [occurs_iff]
  exact occurs_encode hword tx

theorem inscriptionPoints_iff (tx : TxRaw) :
    inscriptionPoints (asciiFromBytes tx.encode) = 5 ↔ HasWord tx marker := by
  rw [inscriptionPoints, ← occurs_encode_iff (by decide)]
  split
  next h => exact iff_of_true rfl h
  next h => exact iff_of_false (by decide) h

theorem betPoints_iff (tx : TxRaw) :
    betPoints (asciiFromBytes tx.encode) = 10 ↔
      HasWord tx "ire-bet".toList := by
  rw [betPoints, ← occurs_encode_iff (by decide)]
  split
  next h => exact iff_of_true rfl h
  next h => exact iff_of_false (by decide) h

theorem poolPoints_iff (tx : TxRaw) :
    poolPoints (asciiFromBytes tx.encode) = 20 ↔
      HasWord tx "fund-community-pool".toList ∨
        HasWord tx "CommunityPool".toList := by
  rw [poolPoints, ← occurs_encode_iff (by decide),
    ← occurs_encode_iff (by decide), ← Bool.or_eq_true]
  split
  next h => exact iff_of_true rfl h
  next h => exact iff_of_false (by decide) h

theorem speltIn_utf8 {word text : Text} (hin : word <:+: text)
    (hprint : ∀ c ∈ word, isPrintable c = true) :
    SpeltIn word (utf8 text) := by
  obtain ⟨before, after, rfl⟩ := hin
  have hword := ascii_utf8_of_printable hprint
  rw [SpeltIn, Occurs, utf8_append, utf8_append]
  simp only [asciiFromBytes_append, hword]
  exact ⟨asciiFromBytes (varint _) ++ asciiFromBytes (utf8 before), _,
    by simp only [List.append_assoc]; rfl⟩

theorem hasWord_of_funds {tx : TxRaw} (h : FundsPool tx) :
    HasWord tx "CommunityPool".toList := by
  obtain ⟨msg, hmsg, hurl⟩ := h
  refine Or.inl ⟨msg, hmsg, Or.inl ?_⟩
  rw [hurl]
  apply speltIn_utf8
  · rw [← occurs_iff]
    decide +kernel
  · exact List.all_eq_true.mp (by decide)

theorem hasWord_of_marker {tx : TxRaw} (h : marker <+: tx.body.memo) :
    HasWord tx marker :=
  Or.inr (Or.inl (speltIn_utf8 h.isInfix (List.all_eq_true.mp (by decide))))

theorem hasWord_of_isBetMemo {fmt : NumberFormat} {tx : TxRaw}
    (hplain : '\\' ∉ tx.body.memo) (h : IsBetMemo fmt tx.body.memo) :
    HasWord tx "ire-bet".toList := by
  obtain ⟨text, o, hmemo, hparse, hbet⟩ := h
  have hsuffix : text <:+ tx.body.memo := ⟨betPrefix, hmemo.symm⟩
  obtain ⟨body, hbody, hword⟩ :=
    parse_get_of_plain (mt (hsuffix.subset ·) hplain) hparse hbet.1
  have hin := toJsString_injective hword ▸ hbody.trans hsuffix.isInfix
  exact .inr (.inl (speltIn_utf8 hin (List.all_eq_true.mp (by decide))))

/-- The score is one point and the four parts, each given whole or not at all. -/
structure Scored (ascii : Text) : Prop where
  total : scoreTx ascii = 1 + inscriptionPoints ascii + betPoints ascii +
    poolPoints ascii + validatorPoints ascii
  pool : poolPoints ascii = 20 ∨ poolPoints ascii = 0
  inscription : inscriptionPoints ascii = 5 ∨ inscriptionPoints ascii = 0
  bet : betPoints ascii = 10 ∨ betPoints ascii = 0
  validator : validatorPoints ascii = 25 ∨ validatorPoints ascii = 0

theorem scored (ascii : Text) : Scored ascii where
  total := rfl
  pool := ite_eq_or_eq _ _ _
  inscription := ite_eq_or_eq _ _ _
  bet := ite_eq_or_eq _ _ _
  validator := ite_eq_or_eq _ _ _

/--
Each rule is kept exactly if the word that stands for it is in no field of a
transaction that the rule is not about, and in some field of one that it is.
That last is never in doubt but for a bet whose text has escapes.
-/
theorem scoreTx_keeps_rules (fmt : NumberFormat) (tx : TxRaw) :
    Scored (asciiFromBytes tx.encode) ∧
    ((poolPoints (asciiFromBytes tx.encode) = 20 ↔ FundsPool tx) ↔
      FundsPool tx ∨ ¬ HasWord tx "fund-community-pool".toList ∧
        ¬ HasWord tx "CommunityPool".toList) ∧
    ((inscriptionPoints (asciiFromBytes tx.encode) = 5 ↔
        marker <+: tx.body.memo) ↔
      marker <+: tx.body.memo ∨ ¬ HasWord tx marker) ∧
    ((betPoints (asciiFromBytes tx.encode) = 10 ↔
        IsBetMemo fmt tx.body.memo) ↔
      IsBetMemo fmt tx.body.memo ∧
          ('\\' ∈ tx.body.memo → HasWord tx "ire-bet".toList) ∨
        ¬ IsBetMemo fmt tx.body.memo ∧ ¬ HasWord tx "ire-bet".toList) := by
  rw [poolPoints_iff, inscriptionPoints_iff, betPoints_iff]
  refine ⟨scored _, ?_, ?_, ?_⟩
  · have hfunds := @hasWord_of_funds tx
    constructor
    · intro h
      by_cases hpool : FundsPool tx
      · exact Or.inl hpool
      · exact Or.inr (not_or.mp (mt h.mp hpool))
    · rintro (hpool | hnone)
      · exact iff_of_true (Or.inr (hfunds hpool)) hpool
      · exact iff_of_false (not_or.mpr hnone) (fun h => hnone.2 (hfunds h))
  · have hmarker := @hasWord_of_marker tx
    constructor
    · intro h
      by_cases hmemo : marker <+: tx.body.memo
      · exact Or.inl hmemo
      · exact Or.inr (mt h.mp hmemo)
    · rintro (hmemo | hnone)
      · exact iff_of_true (hmarker hmemo) hmemo
      · exact iff_of_false hnone (fun h => hnone (hmarker h))
  · have hplain := @hasWord_of_isBetMemo fmt tx
    constructor
    · intro h
      by_cases hbet : IsBetMemo fmt tx.body.memo
      · exact .inl ⟨hbet, fun _ => h.mpr hbet⟩
      · exact .inr ⟨hbet, mt h.mp hbet⟩
    · rintro (⟨hbet, hescaped⟩ | ⟨hbet, hnone⟩)
      · by_cases hslash : '\\' ∈ tx.body.memo
        · exact iff_of_true (hescaped hslash) hbet
        · exact iff_of_true (hplain hslash hbet) hbet
      · exact iff_of_false hnone hbet

/-! ## Words in the wrong place -/

def boastTx : TxRaw :=
  sendTx payment "see IREINSCRIBE1 ire-bet CommunityPool".toList

theorem scoreTx_boast :
    scoreTx (asciiFromBytes boastTx.encode) = 36 ∧ ¬ FundsPool boastTx ∧
      ¬ marker <+: boastTx.body.memo ∧
      ¬ IsBetMemo literalFormat boastTx.body.memo := by
  have hmarker : ¬ marker <+: boastTx.body.memo := by decide
  refine ⟨by decide +kernel, ?_, hmarker, ?_⟩
  · rintro ⟨msg, hmsg, hurl⟩
    rw [List.mem_singleton.mp hmsg] at hurl
    exact absurd hurl (by decide)
  · rintro ⟨text, _, hmemo, _⟩
    apply hmarker
    rw [hmemo]
    exact ⟨" application/json ".toList ++ text, rfl⟩

end IreBlockchain.Explorer
