import IreBlockchain.Brokers.Handlers

/-!
# What a verification answers

`onActivate` waits for `verifyActivationPayment` but does not look at what it
answers.  A payment that the node no longer sees by then is confirmed all the
same.
-/

namespace IreBlockchain.Brokers

open IreBlockchain.Foundation Script Rely

structure Verification where
  txHash : Text
  expectedFrom : Text
  expectedId : Nat
  deriving DecidableEq

def completed : (q : Request) → Except Error q.Reply → List Verification
  | .payment _ txHash expectedFrom expectedId, .ok (receipt, tx) =>
      match activationPayment receipt tx expectedFrom expectedId with
      | .ok true => [⟨txHash, expectedFrom, expectedId⟩]
      | _ => []
  | _, _ => []

/-- A page, and the calls that have returned `true` on it. -/
structure Audit where
  world : World interface
  returned : List Verification

namespace Audit

def completes (audit : Audit) : Step interface Event → List Verification
  | .deliver index answer =>
      match audit.world.pending[index]? with
      | some task => completed task.request (answer task.request)
      | none => []
  | _ => []

def step (audit : Audit) (label : Step interface Event) : Audit :=
  ⟨page.step audit.world label, audit.completes label ++ audit.returned⟩

def start (page : Page) : Audit := ⟨⟨page, []⟩, []⟩

/--
When the verification of `onActivate` itself is answered, the payment is there
to be looked at, or the call fails because its hash is used, or the payment was
verified before.
-/
def seen (audit : Audit) : (q : Request) → Except Error q.Reply → Bool
  | .payment .onActivate txHash expectedFrom expectedId, .ok (receipt, tx) =>
      (receipt.isSome && tx.isSome) ||
        txHashAlreadyUsed audit.world.state.activations txHash expectedId ||
        audit.returned.contains ⟨txHash, expectedFrom, expectedId⟩
  | _, _ => true

def seesPayment (audit : Audit) : Step interface Event → Bool
  | .deliver index answer =>
      match audit.world.pending[index]? with
      | some task => audit.seen task.request (answer task.request)
      | none => true
  | _ => true

end Audit

def activation (approved : Bool)
    (replies : List (Nat × ((q : Request) → Except Error q.Reply))) :
    List (Step interface Event) :=
  .fire (.onActivate approved) ::
    replies.map fun reply => .deliver reply.1 reply.2

theorem activation_eq_map (approved : Bool)
    (replies : List (Nat × ((q : Request) → Except Error q.Reply))) :
    activation approved replies =
      ((.fire approved :: replies.map fun reply => .deliver reply.1 reply.2 :
        List (Step interface Bool))).map (Step.map .onActivate) := by
  simp only [activation, List.map_cons, List.map_map]
  rfl

/-! ## The invariant -/

/-- Records are confirmed already in the store, or by a call that returned `true`. -/
def ConfirmsVerified (store : KVStore Text Record)
    (returned : List Verification) (page : Page) : Prop :=
  ∀ key rec, page.activations.get key = some rec → rec.confirmed = true →
    store.get key = some rec ∨ ⟨rec.txHash, rec.address, rec.id⟩ ∈ returned

variable {store : KVStore Text Record} {returned : List Verification}

theorem ConfirmsVerified.write {page : Page}
    (h : ConfirmsVerified store returned page) (address : Text) {rec : Record}
    (id : Nat)
    (hrec : rec.confirmed = true →
      ⟨rec.txHash, rec.address, rec.id⟩ ∈ returned) :
    ConfirmsVerified store returned (page.writeActivation address rec id) := by
  intro key rec' hget hconfirmed
  simp only [Page.writeActivation, KVStore.get_set] at hget
  split at hget
  next =>
    cases Option.some.inj hget
    exact .inr (hrec hconfirmed)
  next => exact h key rec' hget hconfirmed

def verifiedOnly (store : KVStore Text Record)
    (returned : List Verification) : Rely interface where
  inv := ConfirmsVerified store returned
  allowed q page reply := (∀ call ∈ completed q reply, call ∈ returned) ∧
    Audit.seen ⟨⟨page, []⟩, returned⟩ q reply = true

theorem verifiedOnly_aboutActivations :
    AboutActivations (verifiedOnly store returned) where
  frame page page' hactivations _ hinv := by
    intro key rec hget
    rw [hactivations] at hget
    exact hinv key rec hget
  confirmPayment _ _ hinv := hinv

theorem mem_returned {txHash expectedFrom : Text} {expectedId : Nat}
    {caller : Caller} {receipt : Option Receipt} {tx : Option Transaction}
    (hcompleted : ∀ call ∈ completed
      (.payment caller txHash expectedFrom expectedId) (.ok (receipt, tx)),
      call ∈ returned)
    (hok : activationPayment receipt tx expectedFrom expectedId = .ok true) :
    ⟨txHash, expectedFrom, expectedId⟩ ∈ returned := by
  apply hcompleted
  simp only [completed, hok]
  exact List.mem_singleton_self _

theorem verifiedOnly_activatePayment (address txHash : Text) (id : Nat) :
    (verifiedOnly store returned).Quiet (activatePayment address txHash id) := by
  have h : AboutActivations (verifiedOnly store returned) :=
    verifiedOnly_aboutActivations
  intro page hinv
  refine ⟨hinv, ?_⟩
  intro page' reply hinv' hallowed
  cases reply with
  | error error => exact hinv'
  | ok reply =>
      obtain ⟨receipt, tx⟩ := reply
      obtain ⟨hcompleted, hseen⟩ := hallowed
      change (verifiedOnly store returned).Keeps (acceptPayment txHash address
        id (receipt, tx) >>= _) _ _ page'
      apply (keeps_bind ..).mpr
      apply keeps_acceptPayment
      · intro payment _ hok
        change (verifiedOnly store returned).Keeps
          (ite (txHashAlreadyUsed page'.activations txHash id) _ _) _ _ _
        split
        next => exact hinv'
        next =>
          apply h.quiet_afterRecord id
          exact ConfirmsVerified.write hinv' address id
            fun _ => mem_returned hcompleted hok
      · intro hmissing
        change (verifiedOnly store returned).Keeps
          (ite (txHashAlreadyUsed page'.activations txHash id) _ _) _ _ _
        split
        next => exact hinv'
        next hunused =>
          apply h.quiet_afterRecord id
          apply ConfirmsVerified.write hinv' address id
          intro _
          simp only [Audit.seen, hunused, Bool.or_false, Bool.or_eq_true,
            Bool.and_eq_true, List.contains_iff_mem] at hseen
          rcases hseen with ⟨hreceipt, htx⟩ | hbefore
          · obtain ⟨receipt', rfl⟩ := Option.isSome_iff_exists.mp hreceipt
            obtain ⟨tx', rfl⟩ := Option.isSome_iff_exists.mp htx
            exact absurd hmissing (activationPayment_ne_false _ _ _ _)
          · exact hbefore
      · intro error
        exact hinv'

theorem verifiedOnly_paymentVerified (id : Nat) (rec : Record) :
    (verifiedOnly store returned).TaskSafe
      (page.callback (.paymentVerified id rec)) := by
  have h : AboutActivations (verifiedOnly store returned) :=
    verifiedOnly_aboutActivations
  intro page' reply hinv hallowed
  cases reply with
  | error error => exact hinv
  | ok reply =>
      obtain ⟨receipt, tx⟩ := reply
      change (verifiedOnly store returned).Keeps (acceptPayment rec.txHash
        rec.address rec.id (receipt, tx) >>= _) _ _ page'
      apply (keeps_bind ..).mpr
      apply keeps_acceptPayment
      · intro payment _ hok
        apply h.quiet_refreshActivation
        exact ConfirmsVerified.write hinv _ id
          fun _ => mem_returned hallowed.1 hok
      · intro _
        exact hinv
      · intro error
        exact hinv

/-! ## Runs of one call -/

namespace Audit

theorem run_world (audit : Audit) (labels : List (Step interface Event)) :
    (run step audit labels).world = run page.step audit.world labels := by
  induction labels generalizing audit with
  | nil => rfl
  | cons label labels ih => exact ih (audit.step label)

theorem mem_returned_run {audit : Audit} {call : Verification}
    (h : call ∈ audit.returned) (labels : List (Step interface Event)) :
    call ∈ (run step audit labels).returned := by
  induction labels generalizing audit with
  | nil => exact h
  | cons label labels ih => exact ih (List.mem_append_right _ h)

theorem seen_mono (audit audit' : Audit) {q : Request}
    {reply : Except Error q.Reply}
    (hstate : audit'.world.state = audit.world.state)
    (hreturned : ∀ call ∈ audit.returned, call ∈ audit'.returned)
    (h : audit.seen q reply = true) : audit'.seen q reply = true := by
  unfold seen at h ⊢
  split
  next txHash expectedFrom expectedId receipt tx =>
    simp only [Bool.or_eq_true, List.contains_iff_mem, hstate] at h ⊢
    exact h.imp_right (hreturned _)
  next => rfl

theorem guarded_admits (store : KVStore Text Record) (audit : Audit)
    (labels : List (Step interface Event))
    (h : Guarded step (fun audit label => audit.seesPayment label = true) audit
      labels) :
    Guarded page.step
      (verifiedOnly store (run step audit labels).returned).Admits audit.world
      labels := by
  induction labels generalizing audit with
  | nil => trivial
  | cons label labels ih =>
      refine ⟨?_, ih (audit.step label) h.2⟩
      cases label with
      | fire => trivial
      | close => trivial
      | deliver index answer =>
          intro task htask
          have hseen := h.1
          rw [Option.mem_def] at htask
          simp only [seesPayment, htask] at hseen
          constructor
          · intro call hcall
            have hmem : call ∈ (audit.step (.deliver index answer)).returned := by
              simp only [step, completes, htask]
              exact List.mem_append_left _ hcall
            exact mem_returned_run hmem labels
          · refine seen_mono audit _ rfl ?_ hseen
            intro call hcall
            have hmem : call ∈ (audit.step (.deliver index answer)).returned :=
              List.mem_append_right _ hcall
            exact mem_returned_run hmem labels

end Audit

/--
In every call of `onActivate` whose own verification finds the payment, fails,
or comes after one that returned `true`, only what was verified is confirmed.
-/
theorem activation_confirms_verified (start : Page) (approved : Bool)
    (replies : List (Nat × ((q : Request) → Except Error q.Reply)))
    (hseen : Guarded Audit.step
      (fun audit label => audit.seesPayment label = true) (.start start)
      (activation approved replies)) :
    let final := run Audit.step (.start start) (activation approved replies)
    ConfirmsVerified start.activations final.returned final.world.state := by
  intro final
  let rely := verifiedOnly start.activations final.returned
  have hupheld : rely.Upheld (page.narrow .onActivate) := by
    constructor
    · intro approved
      apply verifiedOnly_aboutActivations.quiet_onActivate
      · intro page address id txHash hinv
        exact ConfirmsVerified.write hinv address id
          fun hconfirmed => Bool.noConfusion hconfirmed
      · exact verifiedOnly_activatePayment
    · exact verifiedOnly_aboutActivations.taskSafe_callback
        verifiedOnly_paymentVerified
    · intro page hinv
      exact verifiedOnly_aboutActivations.frame page page.reload rfl rfl hinv
  have hinit : rely.inv start := fun _ _ hget _ => .inl hget
  have hadmits : Guarded page.step rely.Admits ⟨start, []⟩
      (activation approved replies) :=
    Audit.guarded_admits start.activations (.start start) _ hseen
  have hworld : final.world =
      run page.step ⟨start, []⟩ (activation approved replies) :=
    Audit.run_world _ _
  change rely.inv final.world.state
  rw [hworld]
  rw [activation_eq_map] at hadmits ⊢
  exact hupheld.run_narrow hinit hadmits

def alicePage : Page :=
  { Page.blank with
    address := some alice, chainId := some Config.chainId, id := some 1
    minted := some Config.collectionSize, box := true }

def alicePays (last : (q : Request) → Except Error q.Reply) :
    List (Nat × ((q : Request) → Except Error q.Reply)) :=
  [(0, aliceAnswers), (0, aliceAnswers), (0, aliceAnswers), (0, aliceAnswers),
    (1, aliceAnswers), (1, last)]

theorem activation_confirms_verified_sample :
    let final := run Audit.step (.start alicePage)
      (activation true (alicePays aliceAnswers))
    final.world.state.isActivated 1 = true ∧
      ConfirmsVerified .empty final.returned final.world.state :=
  ⟨by decide +kernel,
    activation_confirms_verified alicePage true (alicePays aliceAnswers)
      (by decide +kernel)⟩

def unseenAnswers : (q : Request) → Except Error q.Reply
  | .payment _ _ _ _ => .ok (none, none)
  | q => aliceAnswers q

theorem unverified_payment_confirmed :
    let final := run Audit.step (.start alicePage)
      (activation true (alicePays unseenAnswers))
    ¬ ConfirmsVerified alicePage.activations final.returned
      final.world.state := by
  intro final h
  have hstored := h (activationStorageKey alice 1)
    (paymentRecord alice 1 feeHash true) (by decide +kernel) rfl
  have hnone : final.returned = [] := by decide +kernel
  rw [hnone] at hstored
  rcases hstored with hbefore | hreturned
  · cases hbefore
  · cases hreturned

end IreBlockchain.Brokers
