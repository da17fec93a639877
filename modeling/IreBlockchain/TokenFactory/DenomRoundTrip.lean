import IreBlockchain.TokenFactory.Denoms
import IreBlockchain.TokenFactory.LedgerBank

/-!
# Denoms read back

Denoms and pairs of a creator and a subdenom determine each other, for creators
that the encoder has room for.  The decoder takes longer ones as well.
-/

namespace IreBlockchain.TokenFactory

open IreBlockchain.Foundation

/--
Denoms and pairs of a creator and a subdenom are read into each other.  The
creators are those that the encoder has room for.
-/
theorem denoms_round_trip {Account : Type} (codec : AddressCodec Account)
    (hcodec : codec.Lawful) :
    (∀ account subdenom denom,
      getTokenDenom (codec.string account) subdenom = .ok denom →
        deconstructDenom codec denom = .ok (codec.string account, subdenom)) ∧
    (∀ denom creator subdenom,
      deconstructDenom codec denom = .ok (creator, subdenom) →
        Spells denom creator → byteLength subdenom ≤ maxSubdenomLength →
        byteLength creator ≤ maxCreatorLength →
          getTokenDenom creator subdenom = .ok denom) ∧
    ∀ account account' subdenom subdenom' denom,
      getTokenDenom (codec.string account) subdenom = .ok denom →
        getTokenDenom (codec.string account') subdenom' = .ok denom →
          account = account' ∧ subdenom = subdenom' := by
  refine ⟨?_, ?_, ?_⟩
  · intro account subdenom denom h
    exact deconstructDenom_of_getTokenDenom (hcodec.decode_string account) h
  · intro denom creator subdenom h hspells hsubdenom hcreator
    exact getTokenDenom_of_deconstructDenom h hspells hsubdenom hcreator
  · intro account account' subdenom subdenom' denom h h'
    obtain ⟨hstring, hsubdenom⟩ := getTokenDenom_inj h h'
    have hdecode := hcodec.decode_string account
    rw [hstring, hcodec.decode_string account'] at hdecode
    exact ⟨(Except.ok.inj hdecode).symm, hsubdenom⟩

theorem denoms_round_trip_sample :
    deconstructDenom sampleCodec
        (factoryDenom (sampleCodec.string 10) "a//b/".toList) =
      .ok (sampleCodec.string 10, "a//b/".toList) := by
  refine (denoms_round_trip sampleCodec sampleCodec_lawful).1 10 _ _ ?_
  exact getTokenDenom_eq_ok_iff.mpr
    ⟨by decide, by decide, by decide, by decide, rfl⟩

/-! ## An address that the encoder has no room for -/

/-- An account of 48 bytes; the SDK takes up to 255. -/
def longAddress : Text :=
  ("ire1qypqxpq9qcrsszg2pvxq6rs0zqg3yyc5z5tpwxqergd3c8g7ruszzg3rysjjvfeg9y4zk" ++
    "tpd9chnq4rpyuv").toList

def longCodec : AddressCodec Unit where
  accAddressFromBech32 address :=
    if address = longAddress then .ok ()
    else .error "decoding bech32 failed".toList
  string _ := longAddress

theorem longCodec_lawful : longCodec.Lawful where
  decode_string _ := by
    unfold longCodec
    dsimp only
    rw [if_pos rfl]

theorem long_creator_not_encoded :
    ¬ ∀ (Account : Type) (codec : AddressCodec Account), codec.Lawful →
      (∀ account, '/' ∉ codec.string account) →
      ∀ denom creator subdenom,
        deconstructDenom codec denom = .ok (creator, subdenom) →
          Spells denom creator → byteLength subdenom ≤ maxSubdenomLength →
            getTokenDenom creator subdenom = .ok denom := by
  intro h
  have hread : deconstructDenom longCodec
      (factoryDenom longAddress "abc".toList) =
        .ok (longAddress, "abc".toList) :=
    deconstructDenom_eq_ok_iff.mpr
      ⟨by decide, longAddress, (), by decide, rfl,
        longCodec_lawful.decode_string (), rfl⟩
  have hslash : '/' ∉ longAddress := by decide
  have hbuilt := h Unit longCodec longCodec_lawful (fun _ => hslash) _ _ _
    hread (spells_factoryDenom hslash) (by decide)
  obtain ⟨-, hlength, -⟩ := getTokenDenom_eq_ok_iff.mp hbuilt
  revert hlength
  decide

end IreBlockchain.TokenFactory
