import IreBlockchain.TokenFactory.Types

/-!
# The bank

`x/bank` is a parameter: its state, what can be read from it and the operations
the module calls.  `Lawful` is the documented behaviour of these operations.
-/

namespace IreBlockchain.TokenFactory

open IreBlockchain.Foundation

/-- `Bank` is the state of the module and `BankGenesis` what it exports. -/
structure BankKeeper (Account Bank BankGenesis : Type) where
  balance : Bank → Account → Text → Nat
  supply : Bank → Text → Nat
  getDenomMetaData : Bank → Text → Option Metadata
  setDenomMetaData : Bank → Metadata → Bank
  sendCoins : Bank → (src dst : Account) → Coins → Result Bank
  mintCoins : Bank → Account → Coins → Result Bank
  burnCoins : Bank → Account → Coins → Result Bank
  validateMetadata : Metadata → Result Unit
  exportGenesis : Bank → BankGenesis
  initGenesis : Bank → BankGenesis → Bank
  empty : Bank

variable {Account Bank BankGenesis : Type} [DecidableEq Account]

namespace BankKeeper

/-- A send moves coins that the sender holds, and nothing else. -/
structure Sent (bank : BankKeeper Account Bank BankGenesis) (b b' : Bank)
    (src dst : Account) (coins : Coins) : Prop where
  covered : ∀ denom, coins.amountOf denom ≤ bank.balance b src denom
  balance : ∀ account denom,
    bank.balance b' account denom +
        (if account = src then coins.amountOf denom else 0) =
      bank.balance b account denom +
        (if account = dst then coins.amountOf denom else 0)
  supply : bank.supply b' = bank.supply b
  metadata : bank.getDenomMetaData b' = bank.getDenomMetaData b

structure Minted (bank : BankKeeper Account Bank BankGenesis) (b b' : Bank)
    (module : Account) (coins : Coins) : Prop where
  balance : ∀ account denom, bank.balance b' account denom =
    bank.balance b account denom +
      (if account = module then coins.amountOf denom else 0)
  supply : ∀ denom, bank.supply b' denom =
    bank.supply b denom + coins.amountOf denom
  metadata : bank.getDenomMetaData b' = bank.getDenomMetaData b

structure Burned (bank : BankKeeper Account Bank BankGenesis) (b b' : Bank)
    (module : Account) (coins : Coins) : Prop where
  balance : ∀ account denom,
    bank.balance b' account denom +
        (if account = module then coins.amountOf denom else 0) =
      bank.balance b account denom
  supply : ∀ denom, bank.supply b' denom + coins.amountOf denom =
    bank.supply b denom
  metadata : bank.getDenomMetaData b' = bank.getDenomMetaData b

/-- The documented behaviour of `x/bank`. -/
structure Lawful (bank : BankKeeper Account Bank BankGenesis) : Prop where
  sent : ∀ b b' src dst coins,
    bank.sendCoins b src dst coins = .ok b' → bank.Sent b b' src dst coins
  minted : ∀ b b' module coins,
    bank.mintCoins b module coins = .ok b' → bank.Minted b b' module coins
  burned : ∀ b b' module coins,
    bank.burnCoins b module coins = .ok b' → bank.Burned b b' module coins
  burns : ∀ b module (coins : Coins), coins.validate = true →
    (∀ denom, coins.amountOf denom ≤ bank.balance b module denom) →
      ∃ b', bank.burnCoins b module coins = .ok b'
  getSet : ∀ b metadata denom,
    bank.getDenomMetaData (bank.setDenomMetaData b metadata) denom =
      if denom = metadata.base then some metadata
      else bank.getDenomMetaData b denom
  setBalance : ∀ b metadata,
    bank.balance (bank.setDenomMetaData b metadata) = bank.balance b
  setSupply : ∀ b metadata,
    bank.supply (bank.setDenomMetaData b metadata) = bank.supply b
  /-- The bank's own export and import keep the metadata. -/
  roundTrip : ∀ b, bank.getDenomMetaData
      (bank.initGenesis bank.empty (bank.exportGenesis b)) =
    bank.getDenomMetaData b

variable {bank : BankKeeper Account Bank BankGenesis} {b mid b' : Bank}
  {module account : Account} {coins : Coins}

theorem Minted.sent (hmint : bank.Minted b mid module coins)
    (hsend : bank.Sent mid b' module account coins) :
    bank.Minted b b' account coins := by
  refine ⟨?_, ?_, hsend.metadata.trans hmint.metadata⟩
  · intro a denom
    have hmid := hmint.balance a denom
    have hend := hsend.balance a denom
    omega
  · intro denom
    rw [hsend.supply, hmint.supply]

theorem Sent.burned (hsend : bank.Sent b mid account module coins)
    (hburn : bank.Burned mid b' module coins) :
    bank.Burned b b' account coins := by
  refine ⟨?_, ?_, hburn.metadata.trans hsend.metadata⟩
  · intro a denom
    have hmid := hsend.balance a denom
    have hend := hburn.balance a denom
    omega
  · intro denom
    rw [← hsend.supply, hburn.supply]

theorem Sent.held {src dst : Account} (h : bank.Sent b b' src dst coins)
    (denom : Text) : coins.amountOf denom ≤ bank.balance b' dst denom := by
  have hcovered := h.covered denom
  have hmoved := h.balance dst denom
  rw [if_pos rfl] at hmoved
  by_cases heq : dst = src
  · rw [if_pos heq] at hmoved
    rw [← heq] at hcovered
    omega
  · rw [if_neg heq] at hmoved
    omega

theorem Burned.nil : bank.Burned b b account [] :=
  ⟨fun _ _ => by simp, fun _ => by simp, rfl⟩

end BankKeeper

end IreBlockchain.TokenFactory
