import IreBlockchain.Explorer.BankSend
import IreBlockchain.Explorer.Grammar

/-!
# The rows of the wallet

`decodeTx` and `kindFor` of the wallet page.  The first two distinct addresses
of a transaction are taken for its sender and its recipient.
-/

namespace IreBlockchain.Explorer

open IreBlockchain.Foundation

/-- `/uire\\x00{0,4}([0-9]{1,20})/` at the front. -/
def amountAfterDenom (text : Text) : Option Text :=
  let rest := text.drop "uire".length
  let nuls := rest.takeWhile (· = nul)
  let digits := ((rest.dropWhile (· = nul)).takeWhile isDigit).take 20
  if "uire".toList <+: text ∧ nuls.length ≤ 4 ∧ digits ≠ [] then some digits
  else none

/-- `/([0-9]{1,20})\\x00{0,2}uire/` at the front. -/
def amountBeforeDenom (text : Text) : Option Text :=
  let digits := text.takeWhile isDigit
  let rest := text.dropWhile isDigit
  let nuls := rest.takeWhile (· = nul)
  if digits ≠ [] ∧ digits.length ≤ 20 ∧ nuls.length ≤ 2 ∧
      "uire".toList <+: rest.dropWhile (· = nul) then some digits
  else none

def extractUireAmount (ascii : Text) : Text :=
  match ascii.tails.findSome? amountAfterDenom with
  | some digits => digits
  | none => (ascii.tails.findSome? amountBeforeDenom).getD "0".toList

def isStakeAscii (ascii : Text) : Bool :=
  occurs "cosmos.staking.".toList ascii ||
    occurs "cosmos.distribution.".toList ascii ||
    occurs "cosmos.slashing.".toList ascii

structure TxMeta where
  height : Option Nat
  pending : Bool
  time : Option Text

structure WalletTx where
  hash : Text
  id : Text
  fromAddr : Text
  toAddr : Text
  amount : Text
  inscription : Option Inscription
  isStake : Bool
  pending : Bool
  height : Option Nat
  time : Option Text
  addrs : List Text

def decodeTx (sha256Hex : Bytes → Text) (bytes : Bytes) (info : TxMeta) :
    WalletTx :=
  let hash := sha256Hex bytes
  let ascii := asciiFromBytes bytes
  let addrs := extractAddrs ascii
  { hash := hash
    id := hash ++ "i0".toList
    fromAddr := addrs.head?.getD []
    toAddr := if addrs.length > 1 then (addrs.drop 1).head?.getD []
      else addrs.head?.getD []
    amount := extractUireAmount ascii
    inscription := parseInscription ascii
    isStake := isStakeAscii ascii
    pending := info.pending
    height := info.height.filter (· ≠ 0)
    time := info.time.filter (· ≠ [])
    addrs := addrs }

inductive Kind
  | bet
  | inscribe
  | stake
  | receive
  | send
  deriving DecidableEq

def kindFor (fmt : NumberFormat) (tx : WalletTx) (viewer : Text) : Kind :=
  match tx.inscription with
  | some ins =>
      match (extractJson fmt ins.payload).bind (·.get "p".toList) with
      | some (.string p) =>
          if p = toJsString "ire-bet".toList then .bet else .inscribe
      | _ => .inscribe
  | none =>
      if tx.isStake then .stake
      else if viewer ≠ [] ∧ tx.toAddr = viewer ∧ tx.fromAddr ≠ viewer then
        .receive
      else .send

def involves (tx : WalletTx) (addr : Text) : Bool :=
  addr ≠ [] && (tx.fromAddr = addr || tx.toAddr = addr || addr ∈ tx.addrs)

/-! ## The amount that is read -/

/-- `uire`, up to four NULs and a number, of which twenty digits count. -/
def NumberBehind (text digits : Text) : Prop :=
  ∃ nuls run rest, text = "uire".toList ++ (nuls ++ (run ++ rest)) ∧
    (nuls.length ≤ 4 ∧ ∀ c ∈ nuls, c = nul) ∧
    (run ≠ [] ∧ ∀ c ∈ run, isDigit c = true) ∧
    (∀ c ∈ rest.head?, isDigit c = false) ∧ digits = run.take 20

/-- A number of up to twenty digits, up to two NULs and `uire`. -/
def NumberBefore (text digits : Text) : Prop :=
  ∃ nuls rest, text = digits ++ (nuls ++ ("uire".toList ++ rest)) ∧
    (digits ≠ [] ∧ digits.length ≤ 20 ∧ ∀ c ∈ digits, isDigit c = true) ∧
    (nuls.length ≤ 2 ∧ ∀ c ∈ nuls, c = nul)

def ReadFirst (reads : Text → Text → Prop) (text digits : Text) : Prop :=
  ∃ before found, text = before ++ found ∧ reads found digits ∧
    ∀ more ≠ [], more <:+ before → ∀ other, ¬ reads (more ++ found) other

def NowhereRead (reads : Text → Text → Prop) (text : Text) : Prop :=
  ∀ suffix, suffix <:+ text → ∀ digits, ¬ reads suffix digits

/--
The number behind the first `uire` that has one; where none has, the first
number right before one; and else zero.
-/
def AmountIs (ascii digits : Text) : Prop :=
  ReadFirst NumberBehind ascii digits ∨
    NowhereRead NumberBehind ascii ∧
      (ReadFirst NumberBefore ascii digits ∨
        NowhereRead NumberBefore ascii ∧ digits = "0".toList)

theorem isDigit_nul : isDigit nul = false := by decide

theorem amountAfterDenom_eq_some_iff {text digits : Text} :
    amountAfterDenom text = some digits ↔ NumberBehind text digits := by
  have hlength : "uire".length = "uire".toList.length := rfl
  simp only [amountAfterDenom, hlength]
  constructor
  · intro h
    split at h
    next hfound =>
      obtain ⟨⟨rest, rfl⟩, hnuls, hdigits⟩ := hfound
      cases h
      rw [List.drop_left] at hnuls hdigits ⊢
      refine ⟨_, _, ((rest.dropWhile (· = nul)).dropWhile isDigit), ?_,
        ⟨hnuls, fun c hc => by simpa using List.mem_takeWhile_imp hc⟩,
        ⟨?_, fun c => List.mem_takeWhile_imp⟩, ?_, rfl⟩
      · simp only [List.takeWhile_append_dropWhile]
      · intro hnil
        rw [hnil] at hdigits
        exact hdigits rfl
      · intro c hc
        cases dropWhile_eq_nil_or_cons isDigit (rest.dropWhile (· = nul)) with
        | inl hnil =>
            rw [hnil] at hc
            cases hc
        | inr hcons =>
            obtain ⟨d, more, hcons, hd⟩ := hcons
            rw [hcons] at hc
            cases hc
            exact hd
    next => cases h
  · rintro ⟨nuls, run, rest, rfl, ⟨hfour, hnuls⟩, ⟨hrun, hdigits⟩, hrest, rfl⟩
    obtain ⟨d, run, rfl⟩ := List.exists_cons_of_ne_nil hrun
    have hd := hdigits d List.mem_cons_self
    have hnul : decide (d = nul) = false := by
      rw [decide_eq_false_iff_not]
      rintro rfl
      rw [isDigit_nul] at hd
      cases hd
    have hall : ∀ c ∈ nuls, decide (c = nul) = true := by simpa using hnuls
    have htake : (nuls ++ (d :: run ++ rest)).takeWhile (· = nul) = nuls :=
      takeWhile_append_cons hall hnul
    have hdrop : (nuls ++ (d :: run ++ rest)).dropWhile (· = nul) =
        d :: run ++ rest := dropWhile_append_cons hall hnul
    have hrun' : (d :: run ++ rest).takeWhile isDigit = d :: run := by
      rw [List.takeWhile_append_of_pos hdigits]
      cases rest with
      | nil => simp
      | cons c rest => simp [hrest c rfl]
    rw [List.drop_left, htake, hdrop, hrun',
      if_pos ⟨List.prefix_append _ _, hfour, by simp⟩]

theorem amountBeforeDenom_eq_some_iff {text digits : Text} :
    amountBeforeDenom text = some digits ↔ NumberBefore text digits := by
  simp only [amountBeforeDenom]
  constructor
  · intro h
    split at h
    next hfound =>
      obtain ⟨hdigits, hlength, hnuls, rest, hrest⟩ := hfound
      cases h
      refine ⟨_, rest, ?_, ⟨hdigits, hlength, fun c => List.mem_takeWhile_imp⟩,
        ⟨hnuls, fun c hc => by simpa using List.mem_takeWhile_imp hc⟩⟩
      rw [hrest, List.takeWhile_append_dropWhile,
        List.takeWhile_append_dropWhile]
    next => cases h
  · rintro ⟨nuls, rest, rfl, ⟨hne, hlength, hdigits⟩, ⟨hnuls, hall⟩⟩
    have hall' : ∀ c ∈ nuls, decide (c = nul) = true := by simpa using hall
    have hu : decide ('u' = nul) = false := by decide
    have htail : "uire".toList ++ rest = 'u' :: ("ire".toList ++ rest) := rfl
    have hhead : ∀ c ∈ (nuls ++ ("uire".toList ++ rest)).head?,
        isDigit c = false := by
      intro c hc
      cases nuls with
      | nil =>
          cases hc
          decide
      | cons n nuls =>
          obtain rfl : n = c := Option.some.inj hc
          rw [hall n List.mem_cons_self]
          exact isDigit_nul
    have hsplit : (digits ++ (nuls ++ ("uire".toList ++ rest))).takeWhile
          isDigit = digits ∧
        (digits ++ (nuls ++ ("uire".toList ++ rest))).dropWhile isDigit =
          nuls ++ ("uire".toList ++ rest) := by
      rw [List.takeWhile_append_of_pos hdigits,
        List.dropWhile_append_of_pos hdigits]
      cases hnext : nuls ++ ("uire".toList ++ rest) with
      | nil => simp
      | cons c more =>
          rw [hnext] at hhead
          simp [hhead c rfl]
    have htake : (nuls ++ ("uire".toList ++ rest)).takeWhile (· = nul) =
        nuls := by
      rw [htail]
      exact takeWhile_append_cons hall' hu
    have hdrop : (nuls ++ ("uire".toList ++ rest)).dropWhile (· = nul) =
        "uire".toList ++ rest := by
      rw [htail]
      exact dropWhile_append_cons hall' hu
    rw [hsplit.1, hsplit.2, htake, hdrop,
      if_pos ⟨hne, hlength, hnuls, List.prefix_append _ _⟩]

theorem readFirst_iff {reads : Text → Text → Prop} {f : Text → Option Text}
    (hf : ∀ text digits, f text = some digits ↔ reads text digits)
    {text digits : Text} :
    text.tails.findSome? f = some digits ↔ ReadFirst reads text digits := by
  rw [findSome?_tails_eq_some_iff, ReadFirst]
  simp only [Option.eq_none_iff_forall_ne_some, ne_eq, hf]

theorem nowhereRead_iff {reads : Text → Text → Prop} {f : Text → Option Text}
    (hf : ∀ text digits, f text = some digits ↔ reads text digits)
    {text : Text} : text.tails.findSome? f = none ↔ NowhereRead reads text := by
  rw [findSome?_tails_eq_none_iff, NowhereRead]
  simp only [Option.eq_none_iff_forall_ne_some, ne_eq, hf]

theorem extractUireAmount_eq_iff {ascii digits : Text} :
    extractUireAmount ascii = digits ↔ AmountIs ascii digits := by
  have hbehind := @amountAfterDenom_eq_some_iff
  have hbefore := @amountBeforeDenom_eq_some_iff
  rw [AmountIs, ← readFirst_iff @hbehind, ← nowhereRead_iff @hbehind,
    ← readFirst_iff @hbefore, ← nowhereRead_iff @hbefore, extractUireAmount]
  cases ascii.tails.findSome? amountAfterDenom with
  | some found => simp
  | none =>
      cases ascii.tails.findSome? amountBeforeDenom with
      | some found => simp
      | none => simp [eq_comm]

/-! ## Who a row is about -/

theorem kindFor_eq_receive_iff {fmt : NumberFormat} {tx : WalletTx}
    {viewer : Text} :
    kindFor fmt tx viewer = .receive ↔
      tx.inscription = none ∧ tx.isStake = false ∧ viewer ≠ [] ∧
        tx.toAddr = viewer ∧ tx.fromAddr ≠ viewer := by
  rw [kindFor]
  cases hins : tx.inscription with
  | some ins =>
      dsimp only
      split
      next => split <;> simp
      next => simp
  | none =>
      dsimp only
      cases tx.isStake with
      | true => simp
      | false => simp

theorem parseInscription_eq_none_iff {ascii : Text} :
    parseInscription ascii = none ↔ ¬ marker <:+: ascii := by
  rw [parseInscription, Option.map_eq_none_iff, dropUntil_eq_none_iff]

def ShownOtherwise (ascii : Text) : Prop :=
  marker <:+: ascii ∨ isStakeAscii ascii = true

/-- The first text that looks like an address and is not the very first one. -/
def OtherAddr (ascii viewer : Text) : Prop :=
  ∃ first rest, allMatches addrWidth ascii = first :: rest ∧
    rest.find? (· ≠ first) = some viewer

theorem extractAddrs_of_otherAddr {ascii viewer : Text}
    (h : OtherAddr ascii viewer) : ∃ first more,
      extractAddrs ascii = first :: viewer :: more ∧ first ≠ viewer := by
  obtain ⟨first, rest, hmatches, hfind⟩ := h
  obtain ⟨others, hdistinct, hhead⟩ := distinct_eq_cons first rest
  have hne : viewer ≠ first := by simpa using List.find?_some hfind
  rw [hfind, List.head?_eq_some_iff] at hhead
  obtain ⟨more, rfl⟩ := hhead
  exact ⟨first, more, by rw [extractAddrs, hmatches, hdistinct], hne.symm⟩

theorem otherAddr_of_extractAddrs {ascii first viewer : Text}
    {more : List Text} (h : extractAddrs ascii = first :: viewer :: more) :
    OtherAddr ascii viewer := by
  cases hmatches : allMatches addrWidth ascii with
  | nil =>
      rw [extractAddrs, hmatches] at h
      cases h
  | cons start rest =>
      obtain ⟨others, hdistinct, hhead⟩ := distinct_eq_cons start rest
      rw [extractAddrs, hmatches, hdistinct] at h
      cases h
      exact ⟨first, rest, hmatches, hhead.symm⟩

theorem kindFor_decodeTx_iff (fmt : NumberFormat) (sha256Hex : Bytes → Text)
    (bytes : Bytes) (info : TxMeta) (viewer : IreAddr) :
    kindFor fmt (decodeTx sha256Hex bytes info) viewer.text = .receive ↔
      ¬ ShownOtherwise (asciiFromBytes bytes) ∧
        OtherAddr (asciiFromBytes bytes) viewer.text := by
  have hinscription : (decodeTx sha256Hex bytes info).inscription = none ↔
      ¬ marker <:+: asciiFromBytes bytes := parseInscription_eq_none_iff
  have hstake : (decodeTx sha256Hex bytes info).isStake =
      isStakeAscii (asciiFromBytes bytes) := rfl
  rw [kindFor_eq_receive_iff, hinscription, hstake, ShownOtherwise, not_or,
    Bool.not_eq_true, and_assoc, and_congr_right_iff]
  intro _
  rw [and_congr_right_iff]
  intro _
  constructor
  · rintro ⟨hviewer, hto, hfrom⟩
    cases haddrs : extractAddrs (asciiFromBytes bytes) with
    | nil =>
        simp only [decodeTx, haddrs] at hto
        exact absurd hto.symm hviewer
    | cons first more =>
        cases more with
        | nil =>
            simp only [decodeTx, haddrs] at hto hfrom
            exact absurd hto hfrom
        | cons second more =>
            simp only [decodeTx, haddrs] at hto
            have hsecond : second = viewer.text := hto
            rw [hsecond] at haddrs
            exact otherAddr_of_extractAddrs haddrs
  · intro hother
    obtain ⟨first, more, haddrs, hne⟩ := extractAddrs_of_otherAddr hother
    simp only [decodeTx, haddrs]
    exact ⟨viewer.text_ne_nil, rfl, hne⟩

section Send

variable {tx : TxRaw} {msg : MsgSend} (h : tx.body.messages = [msg.toAny])
  (sha256Hex : Bytes → Text) (info : TxMeta)

include h

theorem otherAddr_send_iff (viewer : Text) :
    OtherAddr (asciiFromBytes tx.encode) viewer ↔
      (msg.toAddress.text :: addrsIn (msg.afterRecipient tx)).find?
        (· ≠ msg.fromAddress.text) = some viewer := by
  have hmatches := addrsIn_send h
  rw [addrsIn] at hmatches
  rw [OtherAddr, hmatches]
  constructor
  · rintro ⟨first, rest, heq, hfind⟩
    cases heq
    exact hfind
  · intro hfind
    exact ⟨_, _, rfl, hfind⟩

end Send

end IreBlockchain.Explorer
