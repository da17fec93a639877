import IreBlockchain.Foundation.Lengths
import IreBlockchain.TokenFactory.Indices

/-!
# The simulation of `x/tokenfactory`

Random operations on a running app, one for each of five messages.  What is
drawn for an operation is a parameter that keeps the bounds of the generator.
-/

namespace IreBlockchain.TokenFactory

open IreBlockchain.Foundation

variable {Account Bank BankGenesis : Type} [DecidableEq Account]

/-! ## Operations -/

structure RandString where
  text : Text
  length_eq : text.length = 10
  all_isAlpha : text.all Char.isAlpha = true

/-- What is drawn for one operation among the accounts of the simulation. -/
structure Draws {Account : Type} (accs : List Account) where
  account : Account
  account_mem : account ∈ accs
  newAdmin : Account
  newAdmin_mem : newAdmin ∈ accs
  intn : Nat → Nat
  intn_lt : ∀ n, 0 < n → intn n < n
  positiveInt : Nat → Nat
  positiveInt_pos : ∀ max, 0 < max → 0 < positiveInt max
  positiveInt_le : ∀ max, 0 < max → positiveInt max ≤ max
  subdenom : RandString
  description : RandString
  name : RandString
  symbol : RandString

structure OperationInput (Account : Type) where
  msg : Msg
  simAccount : Account
  coinsSpentInMsg : Coins

/-- `none` is a `NoOpMsg`. -/
abbrev Drawn (Account : Type) := Option (OperationInput Account)

def newCoin (denom : Text) (amount : Int) : Result Coin := do
  ensure (denomFormat denom = true ∧ 0 ≤ amount)
    (.panic ("invalid coin ".toList ++ denom))
  return ⟨denom, amount⟩

def maxSimulatedMint : Nat := 100000000

namespace Keeper

variable (k : Keeper Account Bank BankGenesis) {accs : List Account}
  (d : Draws accs) (s : State Bank)

def defaultSimulationDenomSelector (creator : Text) : Option Text :=
  let denoms := getDenomsFromCreator s.store creator
  if h : denoms.length = 0 then none
  else
    have hpos := d.intn_lt denoms.length (Nat.pos_of_ne_zero h)
    some (denoms.get ⟨d.intn denoms.length, hpos⟩)

/-- The start of every operation on a denom, up to its admin's account. -/
def simulateOnDenom (op : Text → Account → Result (Drawn Account)) :
    Result (Drawn Account) :=
  match defaultSimulationDenomSelector d s (k.codec.string d.account) with
  | none => .ok none
  | some denom => do
      let authData ← getAuthorityMetadata s.store denom
      let address ← k.codec.decodeOr .panic authData.admin
      match accs.find? fun account => account = address with
      | none => return none
      | some adminAccount => op denom adminAccount

def simulateMsgSetDenomMetadata : Result (Drawn Account) :=
  k.simulateOnDenom d s fun denom adminAccount =>
    let metadata : Metadata := {
      description := d.description.text
      denomUnits := [⟨denom, 0, []⟩]
      base := denom
      display := denom
      name := d.name.text
      symbol := d.symbol.text
      uri := []
      uriHash := [] }
    .ok (some ⟨.setDenomMetadata ⟨k.codec.string adminAccount, metadata⟩,
      adminAccount, []⟩)

def simulateMsgChangeAdmin : Result (Drawn Account) :=
  k.simulateOnDenom d s fun denom curAdminAccount =>
    if k.codec.string d.newAdmin = k.codec.string curAdminAccount then .ok none
    else
      .ok (some ⟨.changeAdmin ⟨k.codec.string curAdminAccount, denom,
        k.codec.string d.newAdmin⟩, curAdminAccount, []⟩)

def simulateMsgBurn : Result (Drawn Account) :=
  k.simulateOnDenom d s fun denom adminAccount =>
    let accountBalance := k.bankKeeper.balance s.bank adminAccount denom
    if accountBalance = 0 then .ok none
    else do
      let burnAmount ← newCoin denom (d.positiveInt accountBalance)
      let spent ← newCoins burnAmount
      return some ⟨.burn ⟨k.codec.string adminAccount, burnAmount, []⟩,
        adminAccount, spent⟩

def simulateMsgMint : Result (Drawn Account) :=
  k.simulateOnDenom d s fun denom adminAccount => do
    let amount ← newCoin denom (d.positiveInt maxSimulatedMint)
    return some ⟨.mint ⟨k.codec.string adminAccount, amount, []⟩,
      adminAccount, []⟩

/-- The first coin of the fee is looked up without a check. -/
def simulateMsgCreateDenom : Result (Drawn Account) :=
  let createFee := (getParams s.store).denomCreationFee
  match createFee with
  | [] => .error (.panic "index out of range [0] with length 0".toList)
  | fee :: _ =>
      if (k.bankKeeper.balance s.bank d.account fee.denom : Int) < fee.amount
      then .ok none
      else
        .ok (some ⟨.createDenom ⟨k.codec.string d.account, d.subdenom.text⟩,
          d.account, createFee⟩)

end Keeper

inductive Operation where
  | createDenom
  | mint
  | burn
  | changeAdmin
  | setDenomMetadata

def Keeper.simulate (k : Keeper Account Bank BankGenesis) {accs : List Account}
    (d : Draws accs) (s : State Bank) : Operation → Result (Drawn Account)
  | .createDenom => k.simulateMsgCreateDenom d s
  | .mint => k.simulateMsgMint d s
  | .burn => k.simulateMsgBurn d s
  | .changeAdmin => k.simulateMsgChangeAdmin d s
  | .setDenomMetadata => k.simulateMsgSetDenomMetadata d s

/-! ## What is drawn -/

theorem isAlphanum_of_mem_addressAlphabet {c : Char} (h : c ∈ addressAlphabet) :
    c.isAlphanum = true := by
  have hall : addressAlphabet.all Char.isAlphanum = true := by decide
  exact List.all_eq_true.mp hall c h

theorem byteLength_of_isAlphanum {text : Text}
    (h : ∀ c ∈ text, c.isAlphanum = true) : byteLength text = text.length := by
  rw [byteLength_eq_weigh]
  apply weigh_eq_length
  intro c hc
  have halnum := h c hc
  rw [Char.isAlphanum, Bool.or_eq_true, isAlpha_iff_toNat,
    Char.isDigit_iff_toNat] at halnum
  change _ ∨ (48 ≤ c.toNat ∧ c.toNat ≤ 57) at halnum
  exact utf8Size_of_lt (by omega)

theorem denomFormat_factoryDenom {creator subdenom : Text}
    (hcreator : ∀ c ∈ creator, c.isAlphanum = true)
    (hsubdenom : ∀ c ∈ subdenom, c.isAlphanum = true)
    (hlength : creator.length + subdenom.length ≤ 119) :
    denomFormat (factoryDenom creator subdenom) = true := by
  have hfactory : factoryDenom creator subdenom =
      'f' :: ("actory".toList ++ '/' :: (creator ++ '/' :: subdenom)) := rfl
  rw [hfactory, denomFormat]
  simp only [Bool.and_eq_true, decide_eq_true_eq, List.length_append,
    List.length_cons, List.all_eq_true]
  refine ⟨⟨⟨rfl, ?_⟩, ?_⟩, ?_⟩
  · omega
  · have hprefix : "actory".toList.length = 6 := rfl
    omega
  · intro c hc
    rw [Bool.or_eq_true]
    simp only [List.mem_append, List.mem_cons] at hc
    rcases hc with hc | rfl | hc | rfl | hc
    · have hall : "actory".toList.all Char.isAlphanum = true := by decide
      exact .inl (List.all_eq_true.mp hall c hc)
    · exact .inr rfl
    · exact .inl (hcreator c hc)
    · exact .inr rfl
    · exact .inl (hsubdenom c hc)

namespace RandString

variable (r : RandString)

theorem isAlphanum {c : Char} (h : c ∈ r.text) : c.isAlphanum = true := by
  simp [Char.isAlphanum, List.all_eq_true.mp r.all_isAlpha c h]

theorem exists_not_isSpace : ∃ c ∈ r.text, isSpace c = false := by
  have hne : r.text ≠ [] := by
    intro h
    have hlength := r.length_eq
    simp [h] at hlength
  refine ⟨r.text.head hne, List.head_mem hne, ?_⟩
  have halpha := List.all_eq_true.mp r.all_isAlpha _ (List.head_mem hne)
  rw [isAlpha_iff_toNat] at halpha
  simp only [isSpace, Bool.or_eq_false_iff, Bool.and_eq_false_iff,
    decide_eq_false_iff_not]
  omega

end RandString

omit [DecidableEq Account] in
theorem getTokenDenom_drawn {codec : AddressCodec Account}
    (hcodec : codec.Bech32) {account : Account}
    (hlength : (codec.string account).length ≤ maxCreatorLength)
    (subdenom : RandString) :
    getTokenDenom (codec.string account) subdenom.text =
      .ok (factoryDenom (codec.string account) subdenom.text) := by
  have hcreator : ∀ c ∈ codec.string account, c.isAlphanum = true :=
    fun c hc => isAlphanum_of_mem_addressAlphabet (hcodec.alphabet account c hc)
  have hsubdenom : ∀ c ∈ subdenom.text, c.isAlphanum = true :=
    fun c hc => subdenom.isAlphanum hc
  rw [getTokenDenom_eq_ok_iff]
  refine ⟨?_, ?_, ?_, ?_, rfl⟩
  · rw [byteLength_of_isAlphanum hsubdenom, subdenom.length_eq]
    decide
  · rwa [byteLength_of_isAlphanum hcreator]
  · intro hslash
    exact absurd (hcreator _ hslash) (by decide)
  · apply denomFormat_factoryDenom hcreator hsubdenom
    have hmax : maxCreatorLength = 75 := rfl
    have hsub := subdenom.length_eq
    omega

/-! ## Who governs the denoms of a simulation -/

structure Managed (k : Keeper Account Bank BankGenesis)
    (accs : List Account) (s : State Bank) (denom : Text) (admin : Account) :
    Prop where
  admin_mem : admin ∈ accs
  authority : getAuthorityMetadata s.store denom = .ok ⟨k.codec.string admin⟩
  described : k.bankKeeper.getDenomMetaData s.bank denom ≠ none
  factory : ∃ parts, deconstructDenom k.codec denom = .ok parts

/-- The simulated accounts are the admins, and nobody has changed the fee. -/
structure Governed (k : Keeper Account Bank BankGenesis) (accs : List Account)
    (s : State Bank) : Prop where
  registered : ∃ registry, Represents k s registry ∧
    ∀ denom entry, registry denom = some entry →
      ∃ account ∈ accs, entry.admin = k.codec.string account
  params : getParams s.store = defaultParams

variable {k : Keeper Account Bank BankGenesis} {accs : List Account}
  {d : Draws accs} {s s' : State Bank}

omit [DecidableEq Account] in
theorem Managed.format {denom : Text} {admin : Account}
    (h : Managed k accs s denom admin) : denomFormat denom = true := by
  obtain ⟨⟨creator, subdenom⟩, hparts⟩ := h.factory
  exact (deconstructDenom_eq_ok_iff.mp hparts).1

omit [DecidableEq Account] in
theorem Governed.managed (h : Governed k accs s) {creator denom : Text}
    (hfound : denom ∈ getDenomsFromCreator s.store creator) :
    ∃ admin, Managed k accs s denom admin := by
  obtain ⟨registry, hrepresents, hadmins⟩ := h.registered
  have hcreator := hrepresents.mem_getDenomsFromCreator.mp hfound
  obtain ⟨entry, hentry⟩ : ∃ entry, registry denom = some entry := by
    rw [Registry.creatorOf, Option.map_eq_some_iff] at hcreator
    obtain ⟨entry, hentry, -⟩ := hcreator
    exact ⟨entry, hentry⟩
  obtain ⟨admin, hmem, hadmin⟩ := hadmins denom entry hentry
  refine ⟨admin, hmem, ?_, ?_, ?_⟩
  · rw [hrepresents.getAuthorityMetadata, Registry.adminOf, hentry,
      Option.map_some, Option.getD_some, hadmin]
  · intro hnone
    rw [hrepresents.described denom hnone] at hentry
    cases hentry
  · obtain ⟨account, subdenom, hparts, -⟩ :=
      hrepresents.spelled denom creator hcreator
    exact ⟨_, hparts⟩

theorem Governed.simulateOnDenom (h : Governed k accs s)
    (hcodec : k.codec.Bech32) (op : Text → Account → Result (Drawn Account)) :
    k.simulateOnDenom d s op = .ok none ∨
      ∃ denom admin, Managed k accs s denom admin ∧
        k.simulateOnDenom d s op = op denom admin := by
  unfold Keeper.simulateOnDenom
  split
  next => exact .inl rfl
  next denom hselected =>
    right
    have hfound : denom ∈ getDenomsFromCreator s.store
        (k.codec.string d.account) := by
      dsimp only [Keeper.defaultSimulationDenomSelector] at hselected
      split at hselected
      next => cases hselected
      next => exact Option.some.inj hselected ▸ List.get_mem _ _
    obtain ⟨admin, hadmin⟩ := h.managed hfound
    refine ⟨denom, admin, hadmin, ?_⟩
    have hdecode : k.codec.decodeOr .panic (k.codec.string admin) = .ok admin :=
      AddressCodec.decodeOr_eq_ok_iff.mpr (hcodec.decode_string admin)
    obtain ⟨found, hfind⟩ := Option.isSome_iff_exists.mp
      (List.find?_isSome.mpr ⟨admin, hadmin.admin_mem, decide_eq_true rfl⟩ :
        (accs.find? fun account => account = admin).isSome = true)
    have heq : found = admin := by simpa using List.find?_some hfind
    subst heq
    rw [hadmin.authority, ok_bind, hdecode, ok_bind, hfind]

/-! ## What an operation prepares -/

theorem newCoin_of {denom : Text} (hformat : denomFormat denom = true)
    (amount : Nat) : newCoin denom amount = .ok ⟨denom, amount⟩ := by
  rw [newCoin, ensure_of ⟨hformat, Int.natCast_nonneg amount⟩, ok_bind]
  rfl

theorem newCoins_of {denom : Text} (hformat : denomFormat denom = true)
    {amount : Nat} (hpos : 0 < amount) :
    newCoins ⟨denom, amount⟩ = .ok [⟨denom, amount⟩] := by
  have hne : (amount : Int) ≠ 0 := by omega
  rw [newCoins, ensure_of ⟨hformat, Int.natCast_nonneg amount⟩, ok_bind,
    if_neg hne]
  rfl

theorem validate_singleton {denom : Text} (hformat : denomFormat denom = true)
    {amount : Nat} (hpos : 0 < amount) :
    Coins.validate [⟨denom, amount⟩] = true := by
  simp [Coins.validate, hformat, hpos]

inductive Prepared (k : Keeper Account Bank BankGenesis)
    (accs : List Account) (s : State Bank) : OperationInput Account → Prop
  | createDenom {account : Account} {subdenom : RandString}
      (hmem : account ∈ accs) :
      Prepared k accs s ⟨.createDenom ⟨k.codec.string account, subdenom.text⟩,
        account, (getParams s.store).denomCreationFee⟩
  | mint {denom : Text} {admin : Account} {amount : Nat}
      (h : Managed k accs s denom admin) (hpos : 0 < amount)
      (hle : amount ≤ maxSimulatedMint) :
      Prepared k accs s ⟨.mint ⟨k.codec.string admin, ⟨denom, amount⟩, []⟩,
        admin, []⟩
  | burn {denom : Text} {admin : Account} {amount : Nat}
      (h : Managed k accs s denom admin) (hpos : 0 < amount) :
      Prepared k accs s ⟨.burn ⟨k.codec.string admin, ⟨denom, amount⟩, []⟩,
        admin, [⟨denom, amount⟩]⟩
  | changeAdmin {denom : Text} {admin newAdmin : Account}
      (h : Managed k accs s denom admin) (hmem : newAdmin ∈ accs) :
      Prepared k accs s ⟨.changeAdmin ⟨k.codec.string admin, denom,
        k.codec.string newAdmin⟩, admin, []⟩
  | setDenomMetadata {denom : Text} {admin : Account}
      {description name symbol : RandString}
      (h : Managed k accs s denom admin) :
      Prepared k accs s ⟨.setDenomMetadata ⟨k.codec.string admin,
        ⟨description.text, [⟨denom, 0, []⟩], denom, denom, name.text,
          symbol.text, [], []⟩⟩, admin, []⟩

/-- An operation does not fail: it has nothing to do, or prepares a message. -/
def Prepares (k : Keeper Account Bank BankGenesis) (accs : List Account)
    (s : State Bank) (drawn : Result (Drawn Account)) : Prop :=
  drawn = .ok none ∨
    ∃ input, drawn = .ok (some input) ∧ Prepared k accs s input

theorem Governed.prepares_onDenom (h : Governed k accs s)
    (hcodec : k.codec.Bech32) {op : Text → Account → Result (Drawn Account)}
    (hop : ∀ denom admin, Managed k accs s denom admin →
      Prepares k accs s (op denom admin)) :
    Prepares k accs s (k.simulateOnDenom d s op) := by
  rcases h.simulateOnDenom (d := d) hcodec op with
    hnone | ⟨denom, admin, hadmin, heq⟩
  · exact .inl hnone
  · exact heq ▸ hop denom admin hadmin

theorem Governed.prepares (h : Governed k accs s) (hcodec : k.codec.Bech32)
    (op : Operation) : Prepares k accs s (k.simulate d s op) := by
  cases op with
  | createDenom =>
      simp only [Keeper.simulate, Keeper.simulateMsgCreateDenom]
      split
      next hfee =>
        rw [h.params] at hfee
        cases hfee
      next fee rest hfee =>
        split
        next => exact .inl rfl
        next => exact .inr ⟨_, rfl, .createDenom d.account_mem⟩
  | mint =>
      refine h.prepares_onDenom hcodec fun denom admin hadmin => ?_
      rw [newCoin_of hadmin.format, ok_bind]
      have hmax : 0 < maxSimulatedMint := by decide
      exact .inr ⟨_, rfl, .mint hadmin (d.positiveInt_pos _ hmax)
        (d.positiveInt_le _ hmax)⟩
  | burn =>
      refine h.prepares_onDenom hcodec fun denom admin hadmin => ?_
      dsimp only
      split
      next => exact .inl rfl
      next hbalance =>
        have hpos := d.positiveInt_pos _ (Nat.pos_of_ne_zero hbalance)
        rw [newCoin_of hadmin.format, ok_bind, newCoins_of hadmin.format hpos,
          ok_bind]
        exact .inr ⟨_, rfl, .burn hadmin hpos⟩
  | changeAdmin =>
      refine h.prepares_onDenom hcodec fun denom admin hadmin => ?_
      split
      next => exact .inl rfl
      next => exact .inr ⟨_, rfl, .changeAdmin hadmin d.newAdmin_mem⟩
  | setDenomMetadata =>
      exact h.prepares_onDenom hcodec fun denom admin hadmin =>
        .inr ⟨_, rfl, .setDenomMetadata hadmin⟩

end IreBlockchain.TokenFactory
