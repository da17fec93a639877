import IreBlockchain.TokenFactory.LedgerBank
import Mathlib.Data.List.GetD

/-!
# Spellings of an address

A bech32 address is written in lower case or in upper case throughout, and both
decode to the same account.  `AccAddress.String` is the lower-case spelling.
-/

namespace IreBlockchain.TokenFactory

open IreBlockchain.Foundation

def addressAlphabet : Text :=
  "abcdefghijklmnopqrstuvwxyz0123456789".toList

structure AddressCodec.Bech32 {Account : Type} (codec : AddressCodec Account) :
    Prop where
  decode_iff : ∀ address account,
    codec.accAddressFromBech32 address = .ok account ↔
      address = codec.string account ∨ address = upper (codec.string account)
  alphabet : ∀ account, ∀ c ∈ codec.string account, c ∈ addressAlphabet
  cased : ∀ account, ∃ c ∈ codec.string account, c.toUpper ≠ c

namespace AddressCodec.Bech32

variable {Account : Type} {codec : AddressCodec Account}
  {account account' : Account} {address address' other : Text}

theorem decode_string (hcodec : codec.Bech32) (account : Account) :
    codec.accAddressFromBech32 (codec.string account) = .ok account :=
  (hcodec.decode_iff _ _).mpr (.inl rfl)

theorem decode_upper (hcodec : codec.Bech32) (account : Account) :
    codec.accAddressFromBech32 (upper (codec.string account)) = .ok account :=
  (hcodec.decode_iff _ _).mpr (.inr rfl)

theorem upper_ne (hcodec : codec.Bech32) (account : Account) :
    upper (codec.string account) ≠ codec.string account := by
  intro h
  obtain ⟨c, hc, hcased⟩ := hcodec.cased account
  have hfixed := List.map_eq_map_iff.mp (h.trans (List.map_id _).symm)
  exact hcased (hfixed c hc)

theorem upper_ne_string (hcodec : codec.Bech32) (account account' : Account) :
    upper (codec.string account) ≠ codec.string account' := by
  intro h
  have hdecode := hcodec.decode_string account'
  rw [← h, hcodec.decode_upper] at hdecode
  obtain rfl := Except.ok.inj hdecode
  exact hcodec.upper_ne account h

theorem ne_nil (hcodec : codec.Bech32)
    (h : codec.accAddressFromBech32 address = .ok account) : address ≠ [] := by
  obtain ⟨c, hc, -⟩ := hcodec.cased account
  have hstring := List.ne_nil_of_mem hc
  rcases (hcodec.decode_iff _ _).mp h with rfl | rfl
  · exact hstring
  · simpa [upper] using hstring

theorem separator_not_mem (hcodec : codec.Bech32)
    (h : codec.accAddressFromBech32 address = .ok account) : '|' ∉ address := by
  rcases (hcodec.decode_iff _ _).mp h with rfl | rfl
  · intro hmem
    exact absurd (hcodec.alphabet account _ hmem) (by decide)
  · intro hmem
    obtain ⟨c, hc, heq⟩ := List.mem_map.mp hmem
    have hother : c.toUpper ≠ '|' := by
      have hall : addressAlphabet.all (·.toUpper != '|') = true := by decide
      simpa using List.all_eq_true.mp hall c (hcodec.alphabet account c hc)
    exact hother heq

theorem eq_or_eq (hcodec : codec.Bech32) (hne : address ≠ address')
    (h : codec.accAddressFromBech32 address = .ok account)
    (h' : codec.accAddressFromBech32 address' = .ok account)
    (hother : codec.accAddressFromBech32 other = .ok account) :
    other = address ∨ other = address' := by
  rcases (hcodec.decode_iff _ _).mp h with rfl | rfl <;>
    rcases (hcodec.decode_iff _ _).mp h' with rfl | rfl <;>
    rcases (hcodec.decode_iff _ _).mp hother with rfl | rfl <;>
    simp_all

end AddressCodec.Bech32

/-! ## Both spellings of the sample addresses -/

def bothSpellings : AddressCodec (Fin 11) where
  accAddressFromBech32 address :=
    let canonical := lower address
    if address = canonical ∨ address = upper canonical then
      sampleCodec.accAddressFromBech32 canonical
    else .error "decoding bech32 failed".toList
  string := sampleCodec.string

theorem sampleCodec_eq_ok {address : Text} {account : Fin 11}
    (h : sampleCodec.accAddressFromBech32 address = .ok account) :
    address = sampleCodec.string account := by
  simp only [sampleCodec] at h ⊢
  split at h
  next hlt =>
    obtain rfl := Except.ok.inj h
    have hfound : sampleAddresses.idxOf address < sampleAddresses.length := hlt
    exact ((List.getD_eq_getElem _ _ hfound).trans
      (List.getElem_idxOf hfound)).symm
  next => cases h

theorem lower_of_alphabet {text : Text} (h : ∀ c ∈ text, c ∈ addressAlphabet) :
    lower text = text ∧ lower (upper text) = text := by
  have hlower : addressAlphabet.all (fun c => c.toLower == c) = true := by
    decide
  have hupper : addressAlphabet.all (fun c => c.toUpper.toLower == c) =
      true := by decide
  constructor
  · refine (List.map_congr_left fun c hc => ?_).trans (List.map_id _)
    simpa using List.all_eq_true.mp hlower c (h c hc)
  · rw [lower, upper, List.map_map]
    refine (List.map_congr_left fun c hc => ?_).trans (List.map_id _)
    simpa using List.all_eq_true.mp hupper c (h c hc)

theorem sampleCodec_alphabet :
    ∀ account, ∀ c ∈ sampleCodec.string account, c ∈ addressAlphabet := by
  have hall : ∀ account, (sampleCodec.string account).all
      (addressAlphabet.contains ·) = true := by decide +kernel
  intro account c hc
  simpa using List.all_eq_true.mp (hall account) c hc

theorem bothSpellings_bech32 : bothSpellings.Bech32 where
  decode_iff address account := by
    obtain ⟨hlower, hupper⟩ :=
      lower_of_alphabet (sampleCodec_alphabet account)
    simp only [bothSpellings]
    constructor
    · intro h
      split at h
      next hspelled => rwa [← sampleCodec_eq_ok h]
      next => cases h
    · rintro (rfl | rfl)
      · rw [hlower, if_pos (.inl rfl), sampleCodec_lawful.decode_string]
      · rw [hupper, if_pos (.inr rfl), sampleCodec_lawful.decode_string]
  alphabet := sampleCodec_alphabet
  cased account := ⟨'i', by revert account; decide +kernel, by decide⟩

def spelledSdk : Sdk (Fin 11) (LedgerBank (Fin 11)) (LedgerBank (Fin 11)) :=
  { sampleSdk with codec := bothSpellings }

theorem spelledSdk_lawful : spelledSdk.Lawful :=
  ⟨⟨bothSpellings_bech32.decode_string⟩, LedgerBank.keeper_lawful⟩

end IreBlockchain.TokenFactory
