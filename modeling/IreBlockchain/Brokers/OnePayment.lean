import IreBlockchain.Brokers.Handlers

/-!
# One payment, one agent

A pending record does not count as a use of its payment, and the promise in
`refreshActivation` that confirms it does not ask again.
-/

namespace IreBlockchain.Brokers

open IreBlockchain.Foundation Script Rely

/--
No two confirmed activations of different tokens carry one hash, in whatever
case its digits are written.
-/
def OneAgentPerPayment (localStorage : KVStore Text Record) : Prop :=
  ∀ key key' rec rec', localStorage.get key = some rec →
    localStorage.get key' = some rec' →
    activationRecordIsConfirmed rec = true →
    activationRecordIsConfirmed rec' = true →
    lower rec.txHash = lower rec'.txHash → rec.id = rec'.id

def UsesHash (rec : Record) (txHash : Text) : Prop :=
  rec.confirmed = true ∧ rec.txHash ≠ [] ∧ lower rec.txHash = lower txHash

/-- What the check keeps: every hash, whatever its case, is used for one token. -/
structure HashesUsedOnce (localStorage : KVStore Text Record) : Prop where
  keys : ∀ key rec, localStorage.get key = some rec →
    activationPrefix <+: key
  once : ∀ key key' rec rec' txHash, localStorage.get key = some rec →
    localStorage.get key' = some rec' → UsesHash rec txHash →
    UsesHash rec' txHash → rec.id = rec'.id

theorem usesHash_of_isConfirmed {rec : Record}
    (h : activationRecordIsConfirmed rec = true) : UsesHash rec rec.txHash := by
  simp only [activationRecordIsConfirmed, Bool.and_eq_true,
    decide_eq_true_eq] at h
  exact ⟨h.1.1.2, h.1.1.1.2, rfl⟩

theorem HashesUsedOnce.oneAgentPerPayment {localStorage : KVStore Text Record}
    (h : HashesUsedOnce localStorage) : OneAgentPerPayment localStorage := by
  intro key key' rec rec' hrec hrec' hconfirmed hconfirmed' hhash
  have huse' := usesHash_of_isConfirmed hconfirmed'
  apply h.once key key' rec rec' rec.txHash hrec hrec'
  · exact usesHash_of_isConfirmed hconfirmed
  · exact ⟨huse'.1, huse'.2.1, hhash.symm⟩

theorem hashesUsedOnce_empty : HashesUsedOnce .empty :=
  ⟨by simp, by simp⟩

theorem HashesUsedOnce.id_of_unused {localStorage : KVStore Text Record}
    (h : HashesUsedOnce localStorage) {txHash : Text} {id : Nat}
    (hunused : txHashAlreadyUsed localStorage txHash id = false) {key : Text}
    {rec : Record} (hrec : localStorage.get key = some rec)
    (huse : UsesHash rec txHash) : rec.id = id := by
  obtain ⟨hconfirmed, hne, heq⟩ := huse
  by_contra hid
  have hwant : lower txHash ≠ [] := by
    intro hempty
    rw [hempty] at heq
    exact hne (List.map_eq_nil_iff.mp heq)
  have hused : txHashAlreadyUsed localStorage txHash id = true :=
    txHashAlreadyUsed_eq_true.mpr ⟨hwant, key, rec, hrec, h.keys key rec hrec,
      hne, hconfirmed, heq, hid⟩
  rw [hunused] at hused
  exact Bool.noConfusion hused

theorem HashesUsedOnce.set {localStorage : KVStore Text Record}
    (h : HashesUsedOnce localStorage) {key : Text} {rec : Record}
    (hkey : activationPrefix <+: key)
    (hothers : ∀ key' rec' txHash, UsesHash rec txHash →
      localStorage.get key' = some rec' → UsesHash rec' txHash →
      rec'.id = rec.id) :
    HashesUsedOnce (localStorage.set key rec) := by
  constructor
  · intro key₁ rec₁ hrec₁
    rw [KVStore.get_set] at hrec₁
    split at hrec₁
    next heq => exact heq ▸ hkey
    next => exact h.keys key₁ rec₁ hrec₁
  · intro key₁ key₂ rec₁ rec₂ txHash hrec₁ hrec₂ huse₁ huse₂
    rw [KVStore.get_set] at hrec₁ hrec₂
    split at hrec₁
    next =>
      cases Option.some.inj hrec₁
      split at hrec₂
      next => exact congrArg Record.id (Option.some.inj hrec₂)
      next => exact (hothers key₂ rec₂ txHash huse₁ hrec₂ huse₂).symm
    next =>
      split at hrec₂
      next =>
        cases Option.some.inj hrec₂
        exact hothers key₁ rec₁ txHash huse₂ hrec₁ huse₁
      next => exact h.once key₁ key₂ rec₁ rec₂ txHash hrec₁ hrec₂ huse₁ huse₂

theorem HashesUsedOnce.set_pending {localStorage : KVStore Text Record}
    (h : HashesUsedOnce localStorage) {key : Text} {rec : Record}
    (hkey : activationPrefix <+: key) (hpending : rec.confirmed = false) :
    HashesUsedOnce (localStorage.set key rec) := by
  apply h.set hkey
  intro key' rec' txHash huse
  rw [huse.1] at hpending
  exact Bool.noConfusion hpending

theorem HashesUsedOnce.set_unused {localStorage : KVStore Text Record}
    (h : HashesUsedOnce localStorage) {key : Text} {rec : Record}
    (hkey : activationPrefix <+: key)
    (hunused : txHashAlreadyUsed localStorage rec.txHash rec.id = false) :
    HashesUsedOnce (localStorage.set key rec) := by
  apply h.set hkey
  intro key' rec' txHash huse hrec' huse'
  apply h.id_of_unused hunused hrec'
  exact ⟨huse'.1, huse'.2.1, huse'.2.2.trans huse.2.2.symm⟩

theorem prefix_activationStorageKey (address : Text) (id : Nat) :
    activationPrefix <+: activationStorageKey address id := by
  rw [activationStorageKey, List.append_assoc]
  exact List.prefix_append _ _

/-! ## Runs of the page -/

/--
The payment of a pending record is not used for another token at the moment
`refreshActivation` learns that it is good.
-/
def unusedOnArrival : (q : Request) → Page → Except Error q.Reply → Bool
  | .payment .refreshActivation txHash expectedFrom expectedId, page,
      .ok (receipt, tx) =>
      match activationPayment receipt tx expectedFrom expectedId with
      | .ok true => !txHashAlreadyUsed page.activations txHash expectedId
      | _ => true
  | _, _, _ => true

def onePayment : Rely interface where
  inv := fun page => HashesUsedOnce page.activations
  allowed := fun q page reply => unusedOnArrival q page reply = true

instance (q : Request) (page : Page) (reply : Except Error q.Reply) :
    Decidable (onePayment.allowed q page reply) :=
  inferInstanceAs (Decidable (unusedOnArrival q page reply = true))

theorem onePayment_aboutActivations : AboutActivations onePayment where
  frame page page' hactivations _ hinv := by
    change HashesUsedOnce page'.activations
    rw [hactivations]
    exact hinv
  confirmPayment _ _ hinv := hinv

theorem onePayment_activatePayment (address txHash : Text) (id : Nat) :
    onePayment.Quiet (activatePayment address txHash id) := by
  have h := onePayment_aboutActivations
  apply (h.quiet_verifyActivationPayment _ _ _ _).bind
  intro _ page hinv
  change onePayment.Keeps (ite (txHashAlreadyUsed page.activations txHash id)
    _ _) _ _ page
  split
  next => exact hinv
  next hunused =>
    apply h.quiet_afterRecord id
    exact HashesUsedOnce.set_unused hinv (prefix_activationStorageKey _ _)
      (Bool.eq_false_iff.mpr hunused)

theorem onePayment_recoverPayment (txHash : Text) (id : Nat) :
    onePayment.Quiet (recoverPayment txHash id) := by
  have h := onePayment_aboutActivations
  apply quiet_state.bind
  intro page
  apply (h.quiet_verifyActivationPayment _ _ _ _).bind
  intro ok
  apply (quiet_require _ _).bind
  intro _ page' hinv
  change onePayment.Keeps (ite (txHashAlreadyUsed page'.activations txHash id)
    _ _) _ _ page'
  split
  next => exact hinv
  next hunused =>
    apply h.quiet_afterRecord id
    exact HashesUsedOnce.set_unused hinv (prefix_activationStorageKey _ _)
      (Bool.eq_false_iff.mpr hunused)

theorem onePayment_paymentVerified (id : Nat) (rec : Record) :
    onePayment.TaskSafe (page.callback (.paymentVerified id rec)) := by
  have h := onePayment_aboutActivations
  intro page' reply hinv hallowed
  cases reply with
  | error error => exact hinv
  | ok reply =>
      obtain ⟨receipt, tx⟩ := reply
      change onePayment.Keeps (acceptPayment rec.txHash rec.address rec.id
        (receipt, tx) >>= _) _ _ page'
      apply (keeps_bind ..).mpr
      apply keeps_acceptPayment
      · intro payment htx hok
        change unusedOnArrival (.payment .refreshActivation rec.txHash
          rec.address rec.id) page' (.ok (receipt, tx)) = true at hallowed
        simp only [unusedOnArrival, hok, Bool.not_eq_true'] at hallowed
        apply h.quiet_refreshActivation
        exact HashesUsedOnce.set_unused hinv (prefix_activationStorageKey _ _)
          hallowed
      · intro _
        exact hinv
      · intro error
        exact hinv

/--
One payment activates one agent in every run of the page in which no pending
record is confirmed after its payment was used for another token.
-/
theorem run_oneAgentPerPayment (labels : List (Step interface Event))
    (hadmits : Guarded page.step onePayment.Admits ⟨.blank, []⟩ labels) :
    OneAgentPerPayment (run page.step ⟨.blank, []⟩ labels).state.activations :=
  have hinit : onePayment.inv Page.blank := hashesUsedOnce_empty
  have hupheld : onePayment.Upheld page :=
    onePayment_aboutActivations.upheld
      (fun _ _ _ _ hinv => HashesUsedOnce.set_pending hinv
        (prefix_activationStorageKey _ _) rfl)
      onePayment_activatePayment onePayment_recoverPayment
      onePayment_paymentVerified
  (hupheld.run hinit hadmits).oneAgentPerPayment

def patientRun : List (Step interface Event) :=
  payForOne ++ replies [1]

theorem run_oneAgentPerPayment_sample :
    (run page.step ⟨.blank, []⟩ patientRun).state.isActivated 1 = true ∧
      OneAgentPerPayment
        (run page.step ⟨.blank, []⟩ patientRun).state.activations :=
  ⟨by decide +kernel,
    run_oneAgentPerPayment patientRun (by decide +kernel)⟩

/--
Alice pays for token 1 and closes the tab while the payment is pending.  She
uses it to recover token 2, and then opens token 1 again.
-/
def doubleActivationRun : List (Step interface Event) :=
  payForOne ++ [.close, .fire (.load true none)] ++ replies [1, 1] ++
    [.fire (.recoverActivationFromTx feeHash (some "2".toList))] ++
    replies [1, 1, 1] ++ [.fire (.navigate (some 1))] ++ replies [2]

/-- Both confirmed records carry the very same hash. -/
theorem payment_activates_two_agents :
    let activations :=
      (run page.step ⟨.blank, []⟩ doubleActivationRun).state.activations
    (∃ key key' rec rec', activations.get key = some rec ∧
      activations.get key' = some rec' ∧
      activationRecordIsConfirmed rec = true ∧
      activationRecordIsConfirmed rec' = true ∧
      rec.txHash = rec'.txHash ∧ rec.id ≠ rec'.id) ∧
    ¬ OneAgentPerPayment activations := by
  intro activations
  have hfirst : activations.get (activationStorageKey alice 1) =
      some (paymentRecord alice 1 feeHash true) := by decide +kernel
  have hsecond : activations.get (activationStorageKey alice 2) =
      some (paymentRecord alice 2 feeHash true) := by decide +kernel
  have hconfirmed : ∀ id ∈ [1, 2], activationRecordIsConfirmed
      (paymentRecord alice id feeHash true) = true := by decide +kernel
  refine ⟨⟨_, _, _, _, hfirst, hsecond, hconfirmed 1 (by decide),
    hconfirmed 2 (by decide), rfl, by decide⟩, ?_⟩
  intro h
  have hone := h _ _ _ _ hfirst hsecond (hconfirmed 1 (by decide))
    (hconfirmed 2 (by decide)) rfl
  exact absurd hone (by decide)

end IreBlockchain.Brokers
