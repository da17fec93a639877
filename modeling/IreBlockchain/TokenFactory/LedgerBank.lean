import IreBlockchain.TokenFactory.Genesis
import Mathlib.Algebra.BigOperators.Pi
import Mathlib.Data.Fintype.BigOperators

/-!
# A bank that meets the laws

A plain ledger with a metadata table, which shows that the laws asked of the
bank can be met, and an SDK around it to run the app on.
-/

namespace IreBlockchain.TokenFactory

open IreBlockchain.Foundation

structure LedgerBank (Account : Type) where
  balances : Account → Text → Nat
  metadata : Text → Option Metadata

theorem Coins.amountOf_eq_zero {coins : Coins} {denom : Text}
    (h : ∀ coin ∈ coins, coin.denom ≠ denom) : coins.amountOf denom = 0 := by
  induction coins with
  | nil => rfl
  | cons coin coins ih =>
      have hhead := h coin (by simp)
      have hrest := ih fun c hc => h c (by simp [hc])
      simp only [Coins.amountOf] at hrest ⊢
      simp [hhead, hrest]

def Coins.coveredBy (coins : Coins) (held : Text → Nat) : Bool :=
  coins.all fun coin => decide (coins.amountOf coin.denom ≤ held coin.denom)

theorem Coins.coveredBy_iff {coins : Coins} {held : Text → Nat} :
    coins.coveredBy held = true ↔
      ∀ denom, coins.amountOf denom ≤ held denom := by
  simp only [Coins.coveredBy, List.all_eq_true, decide_eq_true_eq]
  constructor
  · intro h denom
    by_cases hmem : ∃ coin ∈ coins, coin.denom = denom
    · obtain ⟨coin, hcoin, rfl⟩ := hmem
      exact h coin hcoin
    · rw [Coins.amountOf_eq_zero fun coin hcoin heq => hmem ⟨coin, hcoin, heq⟩]
      exact Nat.zero_le _
  · exact fun h coin _ => h coin.denom

variable {Account : Type} [DecidableEq Account] [Fintype Account]

namespace LedgerBank

def supply (b : LedgerBank Account) (denom : Text) : Nat :=
  ∑ account, b.balances account denom

def add (b : LedgerBank Account) (account : Account) (coins : Coins) :
    LedgerBank Account :=
  { b with
    balances a denom :=
      b.balances a denom + if a = account then coins.amountOf denom else 0 }

def sub (b : LedgerBank Account) (account : Account) (coins : Coins) :
    LedgerBank Account :=
  { b with
    balances a denom :=
      b.balances a denom - if a = account then coins.amountOf denom else 0 }

def take (b : LedgerBank Account) (account : Account) (coins : Coins) :
    Result (LedgerBank Account) := do
  ensure (coins.validate = true ∧ coins.coveredBy (b.balances account) = true)
    (.plain "insufficient funds".toList)
  return b.sub account coins

def sendCoins (b : LedgerBank Account) (src dst : Account) (coins : Coins) :
    Result (LedgerBank Account) := do
  let b ← b.take src coins
  return b.add dst coins

/-- The part of `Metadata.Validate` that reads the base and the units. -/
def validateMetadata (metadata : Metadata) : Result Unit :=
  ensure (denomFormat metadata.base = true ∧ metadata.name ≠ [] ∧
      metadata.symbol ≠ [] ∧ denomFormat metadata.display = true ∧
      (metadata.denomUnits.map DenomUnit.exponent).Pairwise (· < ·) ∧
      metadata.denomUnits.head?.map DenomUnit.denom = some metadata.base ∧
      metadata.display ∈ metadata.denomUnits.map DenomUnit.denom)
    (.plain "invalid metadata".toList)

def setDenomMetaData (b : LedgerBank Account) (metadata : Metadata) :
    LedgerBank Account :=
  { b with
    metadata := Function.update b.metadata metadata.base (some metadata) }

omit [Fintype Account] in
theorem take_eq_ok {b b' : LedgerBank Account} {account : Account}
    {coins : Coins} (h : b.take account coins = .ok b') (a : Account)
    (denom : Text) :
    b'.balances a denom +
        (if a = account then coins.amountOf denom else 0) =
      b.balances a denom := by
  simp only [take, bind_eq_ok_iff, ensure_eq_ok_iff, Coins.coveredBy_iff] at h
  obtain ⟨-, ⟨-, hcovered⟩, h⟩ := h
  obtain rfl := Except.ok.inj h
  have := hcovered denom
  simp only [sub]
  split
  next heq =>
    subst heq
    omega
  next => omega

omit [Fintype Account] in
theorem take_metadata {b b' : LedgerBank Account} {account : Account}
    {coins : Coins} (h : b.take account coins = .ok b') :
    b'.metadata = b.metadata := by
  simp only [take, bind_eq_ok_iff] at h
  obtain ⟨-, -, h⟩ := h
  obtain rfl := Except.ok.inj h
  rfl

theorem supply_add (b : LedgerBank Account) (account : Account) (coins : Coins)
    (denom : Text) :
    (b.add account coins).supply denom =
      b.supply denom + coins.amountOf denom := by
  simp [supply, add, Finset.sum_add_distrib]

theorem supply_take {b b' : LedgerBank Account} {account : Account}
    {coins : Coins} (h : b.take account coins = .ok b') (denom : Text) :
    b'.supply denom + coins.amountOf denom = b.supply denom := by
  have hall := Finset.sum_congr (rfl : Finset.univ = Finset.univ)
    fun a (_ : a ∈ Finset.univ) => take_eq_ok h a denom
  simpa [Finset.sum_add_distrib, supply] using hall

def keeper : BankKeeper Account (LedgerBank Account) (LedgerBank Account) where
  balance := LedgerBank.balances
  supply := LedgerBank.supply
  getDenomMetaData := LedgerBank.metadata
  setDenomMetaData := setDenomMetaData
  sendCoins := sendCoins
  mintCoins b module coins := .ok (b.add module coins)
  burnCoins := take
  validateMetadata := validateMetadata
  exportGenesis b := b
  initGenesis _ genesis := genesis
  empty := ⟨fun _ _ => 0, fun _ => none⟩

theorem keeper_lawful :
    (keeper : BankKeeper Account (LedgerBank Account) (LedgerBank Account)).Lawful where
  sent b b' src dst coins h := by
    simp only [keeper, sendCoins, bind_eq_ok_iff] at h
    obtain ⟨mid, htake, h⟩ := h
    obtain rfl := Except.ok.inj h
    refine ⟨?_, ?_, ?_, show mid.metadata = _ from take_metadata htake⟩
    · intro denom
      have := take_eq_ok htake src denom
      simp only [keeper, if_true] at this ⊢
      omega
    · intro account denom
      have := take_eq_ok htake account denom
      simp only [keeper, add]
      omega
    · funext denom
      exact (supply_add mid dst coins denom).trans (supply_take htake denom)
  minted b b' module coins h := by
    obtain rfl := Except.ok.inj h
    exact ⟨fun _ _ => rfl, supply_add b module coins, rfl⟩
  burned b b' module coins h :=
    ⟨take_eq_ok h, supply_take h, take_metadata h⟩
  burns b module coins hvalid hheld := by
    have hcovered : coins.coveredBy (b.balances module) = true :=
      Coins.coveredBy_iff.mpr hheld
    refine ⟨b.sub module coins, ?_⟩
    simp only [keeper, take, ensure_of (And.intro hvalid hcovered), ok_bind]
    rfl
  getSet b metadata denom := by
    simp only [keeper, setDenomMetaData, Function.update_apply]
  setBalance _ _ := rfl
  setSupply _ _ := rfl
  roundTrip _ := rfl

end LedgerBank

/-! ## An SDK to run the app on -/

instance neZero_sampleAccounts : NeZero 11 := inferInstance

def sampleAddresses : List Text :=
  ["ire17xpfvakm2amg962yls6f84z3kell8c5lym547x",
    "ire1jv65s3grqf6v6jl3dp4t6c9t9rk99cd8nanfuy",
    "ire1m3h30wlvsf8llruxtpukdvsy0km2kum8unsdjm",
    "ire1fl48vsnmsdzcv85q5d2q4z5ajdha8yu3pe76vv",
    "ire1tygms3xhhs3yv487phx3dw4a95jn7t7l4ezt6c",
    "ire10d07y265gmmuvt4z0w9aw880jnsr700jwqysrg",
    "ire1hr93qzcjspaa32px0qqywlh9hf9a8plgm63rju",
    "ire1yl6hdjhmkf37639730gffanpzndzdpmh6apuzc",
    "ire1vlthgax23ca9syk7xgaz347xmf4nunefn2pzet",
    "ire19ejy8n9qsectrf4semdp9cpknflld0j6fz2cc6",
    "ire1pchh7j8cr9mndj7d0rfw2pq2lv7gyt67sy0ugm"].map String.toList

def sampleCodec : AddressCodec (Fin 11) where
  accAddressFromBech32 address :=
    if h : sampleAddresses.idxOf address < 11 then
      .ok ⟨sampleAddresses.idxOf address, h⟩
    else .error "decoding bech32 failed".toList
  string account := sampleAddresses.getD account []

theorem sampleCodec_lawful : sampleCodec.Lawful := ⟨by decide⟩

def sampleSdk : Sdk (Fin 11) (LedgerBank (Fin 11)) (LedgerBank (Fin 11)) where
  codec := sampleCodec
  bankKeeper := LedgerBank.keeper
  moduleAddress name :=
    Fin.ofNat 11 ((moduleAccPerms.map Prod.fst).idxOf name)
  fundCommunityPool b fee payer := b.sendCoins payer 1 fee

theorem sampleSdk_lawful : sampleSdk.Lawful :=
  ⟨sampleCodec_lawful, LedgerBank.keeper_lawful⟩

end IreBlockchain.TokenFactory
