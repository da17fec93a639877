import IreBlockchain.Foundation.KVStore
import IreBlockchain.Foundation.Results
import IreBlockchain.Foundation.Search
import IreBlockchain.Foundation.Text

/-!
# Activation records of the brokers page

An activation is a record in the browser's local storage.  It names the wallet
and the token it was made for and the payment that bought it.
-/

namespace IreBlockchain.Brokers

open IreBlockchain.Foundation

namespace Config

def contract : Text := "0x9F7A3ADbF611cBeeC95Ce40e0259bbF96b8Df041".toList

def activationFeeRecipient : Text :=
  "0xdfF1a5dc565a2D8d0C2818f8B190ca8399B869b3".toList

def activationFeeWei : Text := "0x38d7ea4c68000".toList

def chainId : Nat := 4663

def collectionSize : Nat := 5000

end Config

structure Error where
  code : Option Int
  message : Text
  deriving DecidableEq

def newError (message : String) : Error := ⟨none, message.toList⟩

/-! ## Numbers and addresses -/

def parseId (raw : Text) : Option Nat :=
  (parseNat raw).filter fun n => 1 ≤ n && n ≤ Config.collectionSize

def normalizeWei (v : Text) : Text :=
  if v = [] then []
  else
    let s := lower v
    let s := if "0x".toList <+: s then s.drop 2 else s
    let s := s.dropWhile (· = '0')
    "0x".toList ++ if s = [] then "0".toList else s

/-- A missing address is the empty text, which is the same as no other. -/
def sameAddr (a b : Text) : Bool :=
  a ≠ [] && b ≠ [] && lower a = lower b

def shortAddr (a : Text) : Text :=
  if a = [] then []
  else a.take 6 ++ "…".toList ++ a.drop (a.length - 4)

def firstAccount (accounts : List Text) : Option Text :=
  accounts.head?.filter (· ≠ [])

/-! ## Calldata of older payments -/

def activationData (id : Nat) : Text :=
  "0x4342524b".toList ++ lower (Config.contract.drop 2) ++
    padStart 64 '0' (Nat.toDigits 16 id)

def dropHexMark (data : Text) : Text :=
  if "0x".toList <+: data then data.drop 2 else data

def activationDataMatches (input : Text) (expectedId : Nat) : Bool :=
  let got := lower input
  let need := lower (activationData expectedId)
  if got = need then true
  else if got = [] || got = "0x".toList then false
  else dropHexMark got = dropHexMark need

/-! ## Records -/

/-- The fields of an activation record that the page reads again. -/
structure Record where
  address : Text
  id : Nat
  txHash : Text
  confirmed : Bool
  feeWei : Text
  feeRecipient : Text
  deriving DecidableEq

def activationRecordIsConfirmed (rec : Record) : Bool :=
  rec.id ≠ 0 && rec.txHash ≠ [] && rec.confirmed &&
    sameAddr rec.feeRecipient Config.activationFeeRecipient &&
    normalizeWei rec.feeWei = normalizeWei Config.activationFeeWei

def activationPrefix : Text := "crypto-brokers:activation:".toList

def activationStorageKey (address : Text) (id : Nat) : Text :=
  activationPrefix ++ lower address ++ ':' :: decimal id

def workingStorageKey (address : Text) (id : Nat) : Text :=
  "crypto-brokers:working:".toList ++ lower address ++ ':' :: decimal id

def txHashAlreadyUsed (localStorage : KVStore Text Record) (txHash : Text)
    (exceptId : Nat) : Bool :=
  let want := lower txHash
  if want = [] then false
  else
    (localStorage.iterate fun key => activationPrefix <+: key).any
      fun (_, rec) =>
        rec.txHash ≠ [] && rec.confirmed && lower rec.txHash = want &&
          rec.id ≠ exceptId

/-! ## The payment on chain -/

structure Receipt where
  status : Text
  deriving DecidableEq

structure Transaction where
  sender : Text
  recipient : Text
  value : Text
  input : Text
  data : Text
  deriving DecidableEq

/--
What the page makes of the receipt and the transaction of a hash: `false` where
one of them is missing, an error where they are not the payment it asks for.
-/
def activationPayment (receipt : Option Receipt) (tx : Option Transaction)
    (expectedFrom : Text) (expectedId : Nat) : Except Error Bool :=
  match receipt, tx with
  | some receipt, some tx =>
      let input :=
        lower (if tx.input ≠ [] then tx.input
          else if tx.data ≠ [] then tx.data else "0x".toList)
      if lower receipt.status ≠ "0x1".toList then
        .error (newError
          "The activation payment reverted. The agent was not activated.")
      else if ¬ sameAddr tx.sender expectedFrom ∨
          ¬ sameAddr tx.recipient Config.activationFeeRecipient then
        .error ⟨none,
          "Activation tx from/to mismatch. Must pay from the owning wallet to ".toList
            ++ Config.activationFeeRecipient ++ " on Robinhood Chain.".toList⟩
      else if normalizeWei tx.value ≠ normalizeWei Config.activationFeeWei then
        .error ⟨none,
          "Activation tx value mismatch. Need exactly 0.001 ETH on Robinhood Chain, got ".toList
            ++ tx.value ++ ".".toList⟩
      else if input ≠ "0x".toList ∧ input ≠ [] ∧
          ¬ activationDataMatches input expectedId then
        .error (newError
          "Activation tx has unexpected calldata. Send a plain 0.001 ETH transfer (no data) on Robinhood Chain.")
      else .ok true
  | _, _ => .ok false

/-! ## Small lemmas -/

theorem colon_not_mem_decimal (id : Nat) : ':' ∉ decimal id := by
  intro hmem
  have hdigit : ':'.isDigit = true :=
    Nat.isDigit_of_mem_toDigits (by decide) (by decide) hmem
  exact absurd hdigit (by decide)

theorem decimal_injective {id id' : Nat} (h : decimal id = decimal id') :
    id = id' := by
  have hvalue := congrArg (Nat.ofDigitChars 10 · 0) h
  simpa only [decimal, Nat.ofDigitChars_ten_toDigits] using hvalue

theorem lower_eq_of_sameAddr {a b : Text} (h : sameAddr a b = true) :
    lower a = lower b := by
  simp only [sameAddr, Bool.and_eq_true, decide_eq_true_eq] at h
  exact h.2

theorem txHashAlreadyUsed_eq_true {localStorage : KVStore Text Record}
    {txHash : Text} {exceptId : Nat} :
    txHashAlreadyUsed localStorage txHash exceptId = true ↔
      lower txHash ≠ [] ∧ ∃ key rec, localStorage.get key = some rec ∧
        activationPrefix <+: key ∧ rec.txHash ≠ [] ∧ rec.confirmed = true ∧
        lower rec.txHash = lower txHash ∧ rec.id ≠ exceptId := by
  simp only [txHashAlreadyUsed]
  split
  next hempty => simp [hempty]
  next hne =>
    simp only [List.any_eq_true, Prod.exists, KVStore.mem_iterate_iff,
      Bool.and_eq_true, decide_eq_true_eq, and_assoc]
    simp only [hne, not_false_eq_true, true_and, ne_eq]

theorem sender_of_activationPayment {receipt : Option Receipt}
    {tx : Option Transaction} {expectedFrom : Text} {expectedId : Nat}
    (h : activationPayment receipt tx expectedFrom expectedId = .ok true) :
    ∃ payment, tx = some payment ∧
      sameAddr payment.sender expectedFrom = true := by
  simp only [activationPayment] at h
  split at h
  next receipt payment =>
    simp only [ite_error_eq_ok_iff, not_or, not_not] at h
    exact ⟨payment, rfl, h.2.1.1⟩
  next => simp at h

theorem activationPayment_ne_false (receipt : Receipt) (tx : Transaction)
    (expectedFrom : Text) (expectedId : Nat) :
    activationPayment (some receipt) (some tx) expectedFrom expectedId ≠
      .ok false := by
  intro h
  simp only [activationPayment, ite_error_eq_ok_iff] at h
  exact Bool.noConfusion (Except.ok.inj h.2.2.2.2)

end IreBlockchain.Brokers
