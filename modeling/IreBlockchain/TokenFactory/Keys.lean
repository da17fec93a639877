import IreBlockchain.TokenFactory.Keeper

/-!
# The keys of the module's store

Parameters, authority records and the creator index share one store.  The keys
of the three never meet, and a key of the index gives its creator and its denom
back as long as neither holds the separator.
-/

namespace IreBlockchain.TokenFactory

open IreBlockchain.Foundation

theorem authorityKey_ne_paramsKey (denom : Text) :
    authorityKey denom ≠ paramsKey := by
  intro h
  have hhead : some 'd' = paramsKey.head? := congrArg List.head? h
  contradiction

theorem creatorKey_ne_paramsKey (creator denom : Text) :
    creatorKey creator denom ≠ paramsKey := by
  intro h
  have hhead : some 'c' = paramsKey.head? := congrArg List.head? h
  contradiction

theorem authorityKey_ne_creatorKey (denom creator denom' : Text) :
    authorityKey denom ≠ creatorKey creator denom' := by
  intro h
  have hhead : some 'd' = some 'c' := congrArg List.head? h
  contradiction

theorem authorityKey_inj {denom denom' : Text} :
    authorityKey denom = authorityKey denom' ↔ denom = denom' := by
  simp [authorityKey, getDenomPrefixStore, join, List.intercalate]

theorem creatorKey_eq (creator denom : Text) :
    creatorKey creator denom = getCreatorsPrefix ++ (creator ++ '|' :: denom) := by
  simp [creatorKey, getCreatorPrefix, getCreatorsPrefix, join, keySeparator,
    List.intercalate]

theorem creatorKey_inj {creator denom creator' denom' : Text}
    (hcreator : '|' ∉ creator) (hdenom : '|' ∉ denom) :
    creatorKey creator' denom' = creatorKey creator denom ↔
      creator' = creator ∧ denom' = denom := by
  rw [creatorKey_eq, creatorKey_eq, List.append_cancel_left_eq, eq_comm,
    List.append_cons_inj_of_notMem hcreator hdenom]
  simp [eq_comm]

/-! ## What is read after a write -/

section Writes

variable (store : Store)

@[simp] theorem getParams_setAuthority (denom : Text)
    (metadata : DenomAuthorityMetadata) :
    getParams (store.set (authorityKey denom) (.authority metadata)) =
      getParams store := by
  simp only [getParams,
    KVStore.get_set_of_ne _ _ (authorityKey_ne_paramsKey denom).symm]

@[simp] theorem getParams_addDenomFromCreator (creator denom : Text) :
    getParams (addDenomFromCreator store creator denom) = getParams store := by
  simp only [getParams, addDenomFromCreator,
    KVStore.get_set_of_ne _ _ (creatorKey_ne_paramsKey creator denom).symm]

@[simp] theorem getParams_setParams (params : Params) :
    getParams (store.set paramsKey (.params params)) = params := by
  simp [getParams]

@[simp] theorem get_authorityKey_setAuthority (denom denom' : Text)
    (value : StoreValue) :
    (store.set (authorityKey denom) value).get (authorityKey denom') =
      if denom' = denom then some value else store.get (authorityKey denom') := by
  simp only [KVStore.get_set, authorityKey_inj]

@[simp] theorem get_authorityKey_addDenomFromCreator
    (creator denom denom' : Text) :
    (addDenomFromCreator store creator denom).get (authorityKey denom') =
      store.get (authorityKey denom') :=
  KVStore.get_set_of_ne _ _ (authorityKey_ne_creatorKey denom' creator denom)

@[simp] theorem get_authorityKey_setParams (value : StoreValue)
    (denom : Text) :
    (store.set paramsKey value).get (authorityKey denom) =
      store.get (authorityKey denom) :=
  KVStore.get_set_of_ne _ _ (authorityKey_ne_paramsKey denom)

theorem get_creatorKey_addDenomFromCreator {creator denom : Text}
    (hcreator : '|' ∉ creator) (hdenom : '|' ∉ denom) (creator' denom' : Text) :
    (addDenomFromCreator store creator denom).get (creatorKey creator' denom') =
      if creator' = creator ∧ denom' = denom then some (.denom denom)
      else store.get (creatorKey creator' denom') := by
  rw [addDenomFromCreator, KVStore.get_set]
  simp only [creatorKey_inj hcreator hdenom]

@[simp] theorem get_creatorKey_setAuthority (denom : Text)
    (value : StoreValue) (creator denom' : Text) :
    (store.set (authorityKey denom) value).get (creatorKey creator denom') =
      store.get (creatorKey creator denom') :=
  KVStore.get_set_of_ne _ _
    (authorityKey_ne_creatorKey denom creator denom').symm

@[simp] theorem get_creatorKey_setParams (value : StoreValue)
    (creator denom : Text) :
    (store.set paramsKey value).get (creatorKey creator denom) =
      store.get (creatorKey creator denom) :=
  KVStore.get_set_of_ne _ _ (creatorKey_ne_paramsKey creator denom)

end Writes

end IreBlockchain.TokenFactory
