import IreBlockchain.Brokers.Records
import IreBlockchain.Foundation.ByteTexts

/-!
# Traits of a token

Every choice about a token is made by a hash of its id and a salt: the first 16
digits of the digest, modulo the number of options.
-/

namespace IreBlockchain.Brokers

open IreBlockchain.Foundation

/-- A hash of texts with hex digests of at least 16 digits. -/
structure HexHash where
  sha256hex : Text → Text
  length_le : ∀ str, 16 ≤ (sha256hex str).length
  all_isHexDigit : ∀ str, (sha256hex str).all isHexDigit = true

def hexNumber (digits : Text) : Nat :=
  digits.foldl (fun n c => n * 16 + (hexValue c).getD 0) 0

def HexHash.leading (H : HexHash) (str : Text) : Nat :=
  hexNumber ((H.sha256hex str).take 16)

variable (H : HexHash)

def rngText (tokenId : Nat) (salt : Text) : Text :=
  "crypto-brokers-".toList ++ decimal tokenId ++ '-' :: salt

def rngMod (tokenId : Nat) (salt : Text) (n : Nat) : Nat :=
  H.leading (rngText tokenId salt) % n

def pick {α : Type} (tokenId : Nat) (salt : Text) (options : List α)
    (hne : 0 < options.length) : α :=
  options.get ⟨rngMod H tokenId salt options.length, Nat.mod_lt _ hne⟩

inductive Universe
  | stocks
  | tokens
  | both
  deriving DecidableEq

def heads : List String :=
  ["Gold Skull", "Chrome Skull", "Matte Helm", "Violet Slit", "Ember Mask",
    "Paper Visor"]

def coats : List String :=
  ["Ash Duster", "Ember Trench", "Teal Lined", "Pinstripe", "No Coat",
    "Charcoal Cape"]

def suits : List String := ["Charcoal", "Navy", "Ember", "Paper White", "Ink Black"]

def accents : List String := ["Ember", "Teal", "Magenta", "Gold", "Violet"]

def huds : List String := ["Charts Halo", "Ticker Cubes", "Orderbook Ring", "None"]

def hands : List String := ["Tablet", "Ledger", "Hologram", "Empty"]

def bases : List String := ["Industrial", "Stone", "Grid"]

def strats : List String := ["Momentum", "Mean Revert", "Top Cap Follow"]

def universes : List Universe := [.stocks, .tokens, .both]

theorem universes_pos : 0 < universes.length := by decide

def rarityBands : List (Nat × String) :=
  [(4500, "Common"), (4900, "Uncommon"), (4980, "Rare"), (4995, "Elite"),
    (5000, "Apex")]

def rarity (tokenId : Nat) : String :=
  let rank := rngMod H tokenId "rarity".toList Config.collectionSize + 1
  ((rarityBands.find? fun band => rank ≤ band.1).map Prod.snd).getD "Apex"

structure Traits where
  head : String
  coat : String
  suit : String
  accent : String
  hud : String
  hand : String
  base : String
  rarity : String
  strategy : String
  tokenUniverse : Universe
  deriving DecidableEq

def traitsFor (tokenId : Nat) : Option Traits :=
  if tokenId < 1 ∨ Config.collectionSize < tokenId then none
  else some
    { head := pick H tokenId "head".toList heads (by decide)
      coat := pick H tokenId "coat".toList coats (by decide)
      suit := pick H tokenId "suit".toList suits (by decide)
      accent := pick H tokenId "accent".toList accents (by decide)
      hud := pick H tokenId "hud".toList huds (by decide)
      hand := pick H tokenId "hand".toList hands (by decide)
      base := pick H tokenId "base".toList bases (by decide)
      rarity := rarity H tokenId
      strategy := pick H tokenId "strat".toList strats (by decide)
      tokenUniverse := pick H tokenId "uni".toList universes universes_pos }

def sampleHash : HexHash where
  sha256hex str :=
    hexText (str.reverse.map (fun c => UInt8.ofNat c.toNat) ++
      List.replicate 8 0)
  length_le str := by
    simp only [length_hexText, List.length_append, List.length_replicate]
    omega
  all_isHexDigit _ := all_isHexDigit_hexText _

end IreBlockchain.Brokers
