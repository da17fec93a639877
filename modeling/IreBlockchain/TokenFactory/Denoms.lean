import IreBlockchain.Foundation.Paths
import IreBlockchain.TokenFactory.Types

/-!
# Denoms and what they decode to

The slash that separates the parts of a denom is also a character of subdenoms.
The creator holds none, so a denom still has only one reading.
-/

namespace IreBlockchain.TokenFactory

open IreBlockchain.Foundation

variable {Account : Type} {codec : AddressCodec Account}
  {creator creator' subdenom subdenom' denom : Text}

def factoryDenom (creator subdenom : Text) : Text :=
  moduleDenomPrefix ++ '/' :: (creator ++ '/' :: subdenom)

theorem join_factoryDenom (creator subdenom : Text) :
    join ['/'] [moduleDenomPrefix, creator, subdenom] =
      factoryDenom creator subdenom := by
  simp [join, factoryDenom, List.intercalate]

theorem join_splitOn (text : Text) : join ['/'] (text.splitOn '/') = text :=
  List.intercalate_splitOn '/'

theorem slash_not_mem_prefix : '/' ∉ moduleDenomPrefix := by decide

theorem splitOn_factoryDenom (hcreator : '/' ∉ creator) :
    (factoryDenom creator subdenom).splitOn '/' =
      moduleDenomPrefix :: creator :: subdenom.splitOn '/' := by
  rw [factoryDenom,
    List.splitOn_append_cons_self_of_not_mem slash_not_mem_prefix,
    List.splitOn_append_cons_self_of_not_mem hcreator]

theorem factoryDenom_inj (hcreator : '/' ∉ creator) (hcreator' : '/' ∉ creator') :
    factoryDenom creator subdenom = factoryDenom creator' subdenom' ↔
      creator = creator' ∧ subdenom = subdenom' := by
  constructor
  · intro h
    have hsplit := congrArg (List.splitOn '/') h
    rw [splitOn_factoryDenom hcreator, splitOn_factoryDenom hcreator'] at hsplit
    simp only [List.cons.injEq, true_and] at hsplit
    refine ⟨hsplit.1, ?_⟩
    rw [← join_splitOn subdenom, hsplit.2, join_splitOn]
  · rintro ⟨rfl, rfl⟩
    rfl

theorem splitOn_eq_cons_cons_cons {first second third : Text}
    {rest : List Text} (h : denom.splitOn '/' = first :: second :: third :: rest) :
    denom = first ++ '/' :: (second ++ '/' :: join ['/'] (third :: rest)) ∧
      '/' ∉ second := by
  constructor
  · rw [← join_splitOn denom, h]
    simp [join, List.intercalate]
  · have hmem : second ∈ denom.splitOn '/' := by simp [h]
    exact Path.not_mem_of_mem_splitOn hmem

/-! ## The encoder and the decoder -/

theorem AddressCodec.decodeOr_eq_ok_iff {failure : Text → Failure}
    {address : Text} {account : Account} :
    codec.decodeOr failure address = .ok account ↔
      codec.accAddressFromBech32 address = .ok account :=
  mapError_eq_ok_iff

theorem getTokenDenom_eq_ok_iff :
    getTokenDenom creator subdenom = .ok denom ↔
      byteLength subdenom ≤ maxSubdenomLength ∧
        byteLength creator ≤ maxCreatorLength ∧ '/' ∉ creator ∧
        denomFormat denom = true ∧ denom = factoryDenom creator subdenom := by
  simp only [getTokenDenom, validateDenom, bind_eq_ok_iff, ensure_eq_ok_iff,
    join_factoryDenom]
  constructor
  · rintro ⟨-, hsubdenom, -, hlength, -, hslash, -, hformat, h⟩
    obtain rfl := Except.ok.inj h
    exact ⟨hsubdenom, hlength, hslash, hformat, rfl⟩
  · rintro ⟨hsubdenom, hlength, hslash, hformat, rfl⟩
    exact ⟨(), hsubdenom, (), hlength, (), hslash, (), hformat, rfl⟩

theorem deconstructDenom_eq_ok_iff :
    deconstructDenom codec denom = .ok (creator, subdenom) ↔
      denomFormat denom = true ∧ ∃ spelled account, '/' ∉ spelled ∧
        denom = factoryDenom spelled subdenom ∧
        codec.accAddressFromBech32 spelled = .ok account ∧
        codec.string account = creator := by
  simp only [deconstructDenom, validateDenom, bind_eq_ok_iff, ensure_eq_ok_iff]
  constructor
  · rintro ⟨-, hformat, h⟩
    refine ⟨hformat, ?_⟩
    split at h
    next first spelled third rest hparts =>
      simp only [bind_eq_ok_iff, ensure_eq_ok_iff,
        AddressCodec.decodeOr_eq_ok_iff] at h
      obtain ⟨-, rfl, account, haccount, h⟩ := h
      obtain ⟨hdenom, hslash⟩ := splitOn_eq_cons_cons_cons hparts
      obtain ⟨rfl, rfl⟩ := Prod.mk.inj (Except.ok.inj h)
      exact ⟨spelled, account, hslash, hdenom, haccount, rfl⟩
    next => contradiction
  · rintro ⟨hformat, spelled, account, hslash, rfl, haccount, rfl⟩
    refine ⟨(), hformat, ?_⟩
    obtain ⟨third, rest, hrest⟩ :
        ∃ third rest, subdenom.splitOn '/' = third :: rest :=
      List.exists_cons_of_ne_nil (List.splitOn_ne_nil '/' subdenom)
    have hjoin : join ['/'] (third :: rest) = subdenom := by
      rw [← hrest, join_splitOn]
    rw [splitOn_factoryDenom hslash, hrest]
    simp only [bind_eq_ok_iff, ensure_eq_ok_iff,
      AddressCodec.decodeOr_eq_ok_iff]
    exact ⟨(), trivial, account, haccount, by rw [hjoin]; rfl⟩

/-! ## Round trips -/

/-- The denom names its creator in this spelling. -/
def Spells (denom creator : Text) : Prop :=
  (denom.splitOn '/')[1]? = some creator

theorem spells_factoryDenom (hcreator : '/' ∉ creator) :
    Spells (factoryDenom creator subdenom) creator := by
  rw [Spells, splitOn_factoryDenom hcreator]
  rfl

theorem deconstructDenom_of_getTokenDenom {account : Account}
    (haccount : codec.accAddressFromBech32 creator = .ok account)
    (h : getTokenDenom creator subdenom = .ok denom) :
    deconstructDenom codec denom = .ok (codec.string account, subdenom) := by
  obtain ⟨-, -, hslash, hformat, rfl⟩ := getTokenDenom_eq_ok_iff.mp h
  exact deconstructDenom_eq_ok_iff.mpr
    ⟨hformat, creator, account, hslash, rfl, haccount, rfl⟩

theorem getTokenDenom_of_deconstructDenom
    (h : deconstructDenom codec denom = .ok (creator, subdenom))
    (hspells : Spells denom creator)
    (hsubdenom : byteLength subdenom ≤ maxSubdenomLength)
    (hcreator : byteLength creator ≤ maxCreatorLength) :
    getTokenDenom creator subdenom = .ok denom := by
  obtain ⟨hformat, spelled, account, hslash, rfl, -, -⟩ :=
    deconstructDenom_eq_ok_iff.mp h
  obtain rfl : spelled = creator := by
    simpa [Spells, splitOn_factoryDenom hslash] using hspells
  exact getTokenDenom_eq_ok_iff.mpr
    ⟨hsubdenom, hcreator, hslash, hformat, rfl⟩

theorem getTokenDenom_inj
    (h : getTokenDenom creator subdenom = .ok denom)
    (h' : getTokenDenom creator' subdenom' = .ok denom) :
    creator = creator' ∧ subdenom = subdenom' := by
  obtain ⟨-, -, hslash, -, rfl⟩ := getTokenDenom_eq_ok_iff.mp h
  obtain ⟨-, -, hslash', -, heq⟩ := getTokenDenom_eq_ok_iff.mp h'
  exact (factoryDenom_inj hslash hslash').mp heq

theorem deconstructDenom_creator
    (h : deconstructDenom codec denom = .ok (creator, subdenom)) :
    ∃ account, creator = codec.string account := by
  obtain ⟨-, -, account, -, -, -, hstring⟩ := deconstructDenom_eq_ok_iff.mp h
  exact ⟨account, hstring.symm⟩

theorem deconstructDenom_native (codec : AddressCodec Account)
    (parts : Text × Text) :
    deconstructDenom codec defaultBondDenom ≠ .ok parts := by
  intro h
  obtain ⟨-, spelled, -, -, hdenom, -⟩ := deconstructDenom_eq_ok_iff.mp h
  have hslash : '/' ∈ factoryDenom spelled parts.2 := by simp [factoryDenom]
  rw [← hdenom] at hslash
  revert hslash
  decide

end IreBlockchain.TokenFactory
