import IreBlockchain.TokenFactory.ModuleAccounts

/-!
# The migration from version 1 to version 2

The migration visits every denom of the creator index.  The bank's answer to
`GetDenomMetaData` ends with a flag that is true when it has the metadata, which
the migration takes for an error.
-/

namespace IreBlockchain.TokenFactory

open IreBlockchain.Foundation

def Metadata.zero : Metadata := ⟨[], [], [], [], [], [], [], []⟩

/-- `SetMetadata`; the texts of its errors go on with the whole metadata. -/
def setMetadata (denomMetadata : Metadata) : Result Metadata :=
  if denomMetadata.base.length = 0 then
    .error (.panic "no base exists for denom ".toList)
  else if denomMetadata.display.length = 0 then
    .ok { denomMetadata with
      display := denomMetadata.base
      name := denomMetadata.base
      symbol := denomMetadata.base }
  else .ok denomMetadata

namespace V2

def paramsKey : Text := [Char.ofNat 0]

def currParams : Params where
  denomCreationFee := []
  denomCreationGasConsume := 2000000

def migrate (store : Store) : Result Store := do
  currParams.validate
  return store.set paramsKey (.params currParams)

end V2

variable {Account Bank BankGenesis : Type}

namespace Keeper

variable (k : Keeper Account Bank BankGenesis)

def lookupDenomMetaData (b : Bank) (denom : Text) : Metadata × Bool :=
  match k.bankKeeper.getDenomMetaData b denom with
  | some metadata => (metadata, true)
  | none => (.zero, false)

/-- The body of the loop; `err` is the flag of the lookup. -/
def migrateDenom (b : Bank) (denom : Text) : Result Bank :=
  let (denomMetadata, err) := k.lookupDenomMetaData b denom
  if err then
    .error (.panic ("denom ".toList ++ denom ++ " does not exist".toList))
  else do
    let denomMetadata ← setMetadata denomMetadata
    return k.bankKeeper.setDenomMetaData b denomMetadata

def migrate1to2 (s : State Bank) : Result (State Bank) := do
  let bank ← (getAllDenoms s.store).foldlM k.migrateDenom s.bank
  let store ← V2.migrate s.store
  return ⟨bank, store⟩

def VersionOne (s : State Bank) : Prop :=
  ∀ denom ∈ getAllDenoms s.store, ∃ metadata,
    k.bankKeeper.getDenomMetaData s.bank denom = some metadata ∧
      metadata.base ≠ []

/-- Base stands in for the names of a denom that shows none. -/
def repaired (metadata : Metadata) : Metadata :=
  if metadata.display = [] then
    { metadata with
      display := metadata.base, name := metadata.base, symbol := metadata.base }
  else metadata

/-- The migration ends, repairs the denoms of the index, and can be repeated. -/
def Repairs (s : State Bank) : Prop :=
  ∃ s', k.migrate1to2 s = .ok s' ∧
    (∀ denom, k.bankKeeper.getDenomMetaData s'.bank denom =
      if denom ∈ getAllDenoms s.store then
        (k.bankKeeper.getDenomMetaData s.bank denom).map repaired
      else k.bankKeeper.getDenomMetaData s.bank denom) ∧
    ∃ s'', k.migrate1to2 s' = .ok s'' ∧ s''.store = s'.store ∧
      k.bankKeeper.getDenomMetaData s''.bank =
        k.bankKeeper.getDenomMetaData s'.bank

variable {k} {s : State Bank}

theorem migrateDenom_of_found {b : Bank} {denom : Text} {metadata : Metadata}
    (h : k.bankKeeper.getDenomMetaData b denom = some metadata) :
    k.migrateDenom b denom =
      .error (.panic ("denom ".toList ++ denom ++ " does not exist".toList)) := by
  simp [migrateDenom, lookupDenomMetaData, h]

theorem migrateDenom_of_missing {b : Bank} {denom : Text}
    (h : k.bankKeeper.getDenomMetaData b denom = none) :
    k.migrateDenom b denom =
      .error (.panic "no base exists for denom ".toList) := by
  simp [migrateDenom, lookupDenomMetaData, h, setMetadata, Metadata.zero]

theorem migrate1to2_of_cons {denom : Text} {denoms : List Text}
    (h : getAllDenoms s.store = denom :: denoms) :
    ∃ text, k.migrate1to2 s = .error (.panic text) := by
  cases hfound : k.bankKeeper.getDenomMetaData s.bank denom with
  | some metadata =>
      refine ⟨"denom ".toList ++ denom ++ " does not exist".toList, ?_⟩
      rw [migrate1to2, h, List.foldlM_cons, migrateDenom_of_found hfound]
      rfl
  | none =>
      refine ⟨"no base exists for denom ".toList, ?_⟩
      rw [migrate1to2, h, List.foldlM_cons, migrateDenom_of_missing hfound]
      rfl

theorem migrate_eq (store : Store) : V2.migrate store =
    .ok (store.set V2.paramsKey (.params V2.currParams)) := rfl

theorem migrate1to2_of_nil (h : getAllDenoms s.store = []) :
    k.migrate1to2 s =
      .ok ⟨s.bank, s.store.set V2.paramsKey (.params V2.currParams)⟩ := by
  rw [migrate1to2, h, migrate_eq]
  rfl

theorem getAllDenoms_setParams (store : Store) (value : StoreValue) :
    getAllDenoms (store.set V2.paramsKey value) = getAllDenoms store := by
  have hkey : getCreatorsPrefix.isPrefixOf V2.paramsKey = false := by decide
  rw [getAllDenoms, KVStore.iterate_set hkey, getAllDenoms]

/-- The migration does its work exactly where there is none. -/
theorem migration_repairs_iff {Account Bank BankGenesis : Type}
    (k : Keeper Account Bank BankGenesis) (s : State Bank) :
    k.Repairs s ↔ getAllDenoms s.store = [] := by
  constructor
  · rintro ⟨s', h, -⟩
    cases hdenoms : getAllDenoms s.store with
    | nil => rfl
    | cons denom denoms =>
        obtain ⟨text, hpanic⟩ := migrate1to2_of_cons (k := k) hdenoms
        rw [h] at hpanic
        contradiction
  · intro hdenoms
    have hagain := getAllDenoms_setParams s.store (.params V2.currParams)
    refine ⟨_, migrate1to2_of_nil hdenoms, ?_, _,
      migrate1to2_of_nil (hagain.trans hdenoms), ?_, rfl⟩
    · intro denom
      simp [hdenoms]
    · exact KVStore.set_set ..

end Keeper

/-! ## A chain with one denom -/

def unnamedMetadata : Metadata :=
  { Metadata.zero with
    denomUnits := [⟨sampleDenom, 0, []⟩]
    base := sampleDenom }

def versionOneState : State (LedgerBank (Fin 11)) where
  bank := sampleSdk.bankKeeper.setDenomMetaData sampleSdk.bankKeeper.empty
    unnamedMetadata
  store := addDenomFromCreator .empty (sampleCodec.string 10) sampleDenom

theorem getAllDenoms_versionOneState :
    getAllDenoms versionOneState.store = [sampleDenom] := by
  decide +kernel

theorem versionOneState_versionOne :
    sampleSdk.keeper.VersionOne versionOneState := by
  intro denom hdenom
  rw [getAllDenoms_versionOneState, List.mem_singleton] at hdenom
  subst hdenom
  exact ⟨unnamedMetadata, rfl, by decide⟩

theorem migration_panics :
    ¬ ∀ (Account Bank BankGenesis : Type)
        (k : Keeper Account Bank BankGenesis) (s : State Bank),
      k.VersionOne s → k.Repairs s := by
  intro h
  obtain ⟨s', hok, -⟩ := h _ _ _ sampleSdk.keeper versionOneState
    versionOneState_versionOne
  have hpanic := Keeper.migrate1to2_of_cons (k := sampleSdk.keeper)
    getAllDenoms_versionOneState
  obtain ⟨text, hpanic⟩ := hpanic
  rw [hok] at hpanic
  contradiction

end IreBlockchain.TokenFactory
