import IreBlockchain.Brokers.Handlers

/-!
# The wallet that paid

A record is stored under the wallet that is connected when a verification comes
back, whichever wallet it was started for, and `onActivate` does not look at
what its verification answers.
-/

namespace IreBlockchain.Brokers

open IreBlockchain.Foundation Script Rely

def VerifiedFrom (page : Page) (txHash wallet : Text) : Prop :=
  ∃ payment ∈ page.verified, payment.txHash = txHash ∧
    lower payment.sender = lower wallet

/-- Confirmed records are stored under the wallets that paid for them. -/
def StoredUnderPayer (page : Page) : Prop :=
  ∀ wallet id rec,
    page.activations.get (activationStorageKey wallet id) = some rec →
    activationRecordIsConfirmed rec = true →
    VerifiedFrom page rec.txHash wallet

def PayerKeys (page : Page) : Prop :=
  ∀ key rec, page.activations.get key = some rec → rec.confirmed = true →
    ∃ payment ∈ page.verified, payment.txHash = rec.txHash ∧
      ∃ id, key = activationStorageKey payment.sender id

/-! ## Storage keys -/

theorem lower_eq_of_activationStorageKey {wallet wallet' : Text}
    {id id' : Nat}
    (h : activationStorageKey wallet id = activationStorageKey wallet' id') :
    lower wallet = lower wallet' := by
  have htext := append_cons_inj_of_not_mem (colon_not_mem_decimal id)
    (colon_not_mem_decimal id') h
  exact List.append_cancel_left htext.1

theorem activationStorageKey_congr {wallet wallet' : Text}
    (h : lower wallet = lower wallet') (id : Nat) :
    activationStorageKey wallet id = activationStorageKey wallet' id := by
  simp only [activationStorageKey, h]

/-! ## The invariant -/

theorem PayerKeys.storedUnderPayer {page : Page} (h : PayerKeys page) :
    StoredUnderPayer page := by
  intro wallet id rec hrec hconfirmed
  simp only [activationRecordIsConfirmed, Bool.and_eq_true] at hconfirmed
  obtain ⟨payment, hmem, hhash, id', hkey⟩ :=
    h _ rec hrec hconfirmed.1.1.2
  exact ⟨payment, hmem, hhash, (lower_eq_of_activationStorageKey hkey).symm⟩

theorem payerKeys_blank : PayerKeys .blank := by
  simp [PayerKeys, Page.blank]

theorem PayerKeys.confirmPayment {page : Page} (h : PayerKeys page)
    (payment : Payment) : PayerKeys (page.confirmPayment payment) := by
  intro key rec hrec hconfirmed
  obtain ⟨paid, hmem, hpaid⟩ := h key rec hrec hconfirmed
  exact ⟨paid, List.mem_cons_of_mem _ hmem, hpaid⟩

theorem PayerKeys.write {page : Page} (h : PayerKeys page) {address : Text}
    {rec : Record} {id : Nat}
    (hpaid : rec.confirmed = true → VerifiedFrom page rec.txHash address) :
    PayerKeys (page.writeActivation address rec id) := by
  intro key rec' hrec' hconfirmed
  simp only [Page.writeActivation, KVStore.get_set] at hrec'
  split at hrec'
  next hkey =>
    cases Option.some.inj hrec'
    obtain ⟨payment, hmem, hhash, hsender⟩ := hpaid hconfirmed
    exact ⟨payment, hmem, hhash, id,
      hkey.trans (activationStorageKey_congr hsender.symm id)⟩
  next => exact h key rec' hrec' hconfirmed

/-! ## Runs of the page -/

/--
When a payment is found good, the wallet it was asked of is the connected one;
and in `onActivate` the payment is there to be looked at.
-/
def sameWalletOnArrival : (q : Request) → Page → Except Error q.Reply → Bool
  | .payment .onActivate _ _ _, _, .ok (receipt, tx) =>
      receipt.isSome && tx.isSome
  | .payment _ _ expectedFrom expectedId, page, .ok (receipt, tx) =>
      match activationPayment receipt tx expectedFrom expectedId with
      | .ok true => sameAddr (page.address.getD []) expectedFrom
      | _ => true
  | _, _, _ => true

def payingWallet : Rely interface where
  inv := PayerKeys
  allowed := fun q page reply => sameWalletOnArrival q page reply = true

instance (q : Request) (page : Page) (reply : Except Error q.Reply) :
    Decidable (payingWallet.allowed q page reply) :=
  inferInstanceAs (Decidable (sameWalletOnArrival q page reply = true))

theorem payingWallet_aboutActivations : AboutActivations payingWallet where
  frame page page' hactivations hverified hinv := by
    change PayerKeys page'
    intro key rec hrec hconfirmed
    rw [hactivations] at hrec
    rw [hverified]
    exact hinv key rec hrec hconfirmed
  confirmPayment _ payment hinv := hinv.confirmPayment payment

theorem verifiedFrom_of_accepted {page : Page} {txHash expectedFrom : Text}
    {expectedId : Nat} {receipt : Option Receipt} {tx : Transaction}
    (h : activationPayment receipt (some tx) expectedFrom expectedId =
      .ok true) :
    VerifiedFrom (page.confirmPayment ⟨txHash, tx.sender⟩) txHash
      expectedFrom := by
  obtain ⟨payment, hpayment, hsender⟩ := sender_of_activationPayment h
  cases Option.some.inj hpayment
  exact ⟨_, List.mem_cons_self, rfl, lower_eq_of_sameAddr hsender⟩

theorem lower_storageAddress {page : Page} {wallet : Text}
    (h : sameAddr (page.address.getD []) wallet = true) :
    lower page.storageAddress = lower wallet := by
  have heq := lower_eq_of_sameAddr h
  unfold Page.storageAddress
  cases haddress : page.address with
  | none =>
      rw [haddress] at h
      exact absurd h (by simp [sameAddr])
  | some address =>
      rw [haddress] at heq
      exact heq

theorem VerifiedFrom.congr {page : Page} {txHash wallet wallet' : Text}
    (h : VerifiedFrom page txHash wallet)
    (heq : lower wallet' = lower wallet) :
    VerifiedFrom page txHash wallet' := by
  obtain ⟨payment, hmem, hhash, hsender⟩ := h
  exact ⟨payment, hmem, hhash, hsender.trans heq.symm⟩

theorem payingWallet_activatePayment (address txHash : Text) (id : Nat) :
    payingWallet.Quiet (activatePayment address txHash id) := by
  have h := payingWallet_aboutActivations
  intro page hinv
  refine ⟨hinv, ?_⟩
  intro page' reply hinv' hallowed
  cases reply with
  | error error => exact hinv'
  | ok reply =>
      obtain ⟨receipt, tx⟩ := reply
      change payingWallet.Keeps (acceptPayment txHash address id
        (receipt, tx) >>= _) _ _ page'
      apply (keeps_bind ..).mpr
      apply keeps_acceptPayment
      · intro payment htx hok
        change payingWallet.Keeps (ite (txHashAlreadyUsed page'.activations
          txHash id) _ _) _ _ _
        split
        next => exact hinv'.confirmPayment _
        next =>
          apply h.quiet_afterRecord id
          apply (hinv'.confirmPayment _).write
          intro _
          exact verifiedFrom_of_accepted (htx ▸ hok)
      · intro hmissing
        change (receipt.isSome && tx.isSome) = true at hallowed
        rw [Bool.and_eq_true] at hallowed
        obtain ⟨receipt', rfl⟩ := Option.isSome_iff_exists.mp hallowed.1
        obtain ⟨tx', rfl⟩ := Option.isSome_iff_exists.mp hallowed.2
        exact absurd hmissing (activationPayment_ne_false _ _ _ _)
      · intro error
        exact hinv'

theorem payingWallet_recoverPayment (txHash : Text) (id : Nat) :
    payingWallet.Quiet (recoverPayment txHash id) := by
  have h := payingWallet_aboutActivations
  intro page hinv
  refine ⟨hinv, ?_⟩
  intro page' reply hinv' hallowed
  cases reply with
  | error error => exact hinv'
  | ok reply =>
      obtain ⟨receipt, tx⟩ := reply
      change payingWallet.Keeps (acceptPayment txHash (page.address.getD [])
        id (receipt, tx) >>= _) _ _ page'
      apply (keeps_bind ..).mpr
      apply keeps_acceptPayment
      · intro payment htx hok
        change payingWallet.Keeps (ite (txHashAlreadyUsed page'.activations
          txHash id) _ _) _ _ _
        change sameWalletOnArrival (.payment .recoverActivationFromTx txHash
          (page.address.getD []) id) page' (.ok (receipt, tx)) = true at hallowed
        simp only [sameWalletOnArrival, hok] at hallowed
        split
        next => exact hinv'.confirmPayment _
        next =>
          apply h.quiet_afterRecord id
          apply (hinv'.confirmPayment _).write
          intro _
          apply (verifiedFrom_of_accepted (htx ▸ hok)).congr
          exact lower_storageAddress hallowed
      · intro _
        exact hinv'
      · intro error
        exact hinv'

theorem payingWallet_paymentVerified (id : Nat) (rec : Record) :
    payingWallet.TaskSafe (page.callback (.paymentVerified id rec)) := by
  have h := payingWallet_aboutActivations
  intro page' reply hinv hallowed
  cases reply with
  | error error => exact hinv
  | ok reply =>
      obtain ⟨receipt, tx⟩ := reply
      change payingWallet.Keeps (acceptPayment rec.txHash rec.address rec.id
        (receipt, tx) >>= _) _ _ page'
      apply (keeps_bind ..).mpr
      apply keeps_acceptPayment
      · intro payment htx hok
        change sameWalletOnArrival (.payment .refreshActivation rec.txHash
          rec.address rec.id) page' (.ok (receipt, tx)) = true at hallowed
        simp only [sameWalletOnArrival, hok] at hallowed
        apply h.quiet_refreshActivation
        apply (hinv.confirmPayment _).write
        intro _
        apply (verifiedFrom_of_accepted (htx ▸ hok)).congr
        exact lower_storageAddress hallowed
      · intro _
        exact hinv
      · intro error
        exact hinv

/--
Whatever the order of replies and account changes, a confirmed record is stored
under the wallet its payment was verified to come from, and only that wallet
sees the token as activated, if every verification comes back to the wallet it
was started for.
-/
theorem run_storedUnderPayer (labels : List (Step interface Event))
    (hadmits : Guarded page.step payingWallet.Admits ⟨.blank, []⟩ labels) :
    let final := (run page.step ⟨.blank, []⟩ labels).state
    StoredUnderPayer final ∧
      ∀ id, final.isActivated id = true →
        ∃ wallet rec, final.address = some wallet ∧
          final.activation id = some rec ∧
          VerifiedFrom final rec.txHash wallet := by
  have hinit : payingWallet.inv Page.blank := payerKeys_blank
  have hupheld : payingWallet.Upheld page :=
    payingWallet_aboutActivations.upheld
      (fun _ _ _ _ hinv => hinv.write fun hconfirmed =>
        Bool.noConfusion hconfirmed)
      payingWallet_activatePayment payingWallet_recoverPayment
      payingWallet_paymentVerified
  have hstored := (hupheld.run hinit hadmits).storedUnderPayer
  refine ⟨hstored, ?_⟩
  intro id hactivated
  simp only [Page.isActivated, Bool.and_eq_true, Option.any_eq_true]
    at hactivated
  obtain ⟨haddress, rec, hrec, hconfirmed⟩ := hactivated
  obtain ⟨wallet, hwallet⟩ := Option.isSome_iff_exists.mp haddress
  refine ⟨wallet, rec, hwallet, hrec, ?_⟩
  apply hstored wallet id rec _ hconfirmed
  rw [Page.activation, Page.storageAddress, hwallet] at hrec
  exact hrec

theorem run_storedUnderPayer_sample :
    let final := (run page.step ⟨.blank, []⟩ (payForOne ++ replies [1])).state
    final.isActivated 1 = true ∧ StoredUnderPayer final ∧
      ∀ id, final.isActivated id = true →
        ∃ wallet rec, final.address = some wallet ∧
          final.activation id = some rec ∧
          VerifiedFrom final rec.txHash wallet :=
  ⟨by decide +kernel, run_storedUnderPayer (payForOne ++ replies [1])
    (by decide +kernel)⟩

def bob : Text := "0xb0b0000000000000000000000000000000000002".toList

def switchedRun : List (Step interface Event) :=
  payForOne ++ [.fire (.accountsChanged [bob])] ++ replies [1]

theorem switched_wallet_activated :
    let final := (run page.step ⟨.blank, []⟩ switchedRun).state
    final.address = some bob ∧ final.isActivated 1 = true ∧
      ¬ StoredUnderPayer final := by
  refine ⟨by decide +kernel, by decide +kernel, ?_⟩
  intro h
  obtain ⟨payment, hmem, _, hsender⟩ :=
    h bob 1 (paymentRecord alice 1 feeHash true) (by decide +kernel)
      (by decide +kernel)
  have hpayers : ∀ payment ∈
      (run page.step ⟨.blank, []⟩ switchedRun).state.verified,
      lower payment.sender ≠ lower bob := by
    decide +kernel
  exact hpayers payment hmem hsender

end IreBlockchain.Brokers
