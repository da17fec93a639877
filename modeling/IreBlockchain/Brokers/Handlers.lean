import IreBlockchain.Brokers.Page

/-!
# Handlers that leave the activations alone

Only the two records of a payment that was just made or just verified write an
activation.  Everything else keeps any invariant about the stored activations.
-/

namespace IreBlockchain.Brokers

open IreBlockchain.Foundation Script Rely

structure AboutActivations (rely : Rely interface) : Prop where
  frame : ∀ page page' : Page, page'.activations = page.activations →
    page'.verified = page.verified → rely.inv page → rely.inv page'
  confirmPayment : ∀ page payment, rely.inv page →
    rely.inv (Page.confirmPayment page payment)

section Quiet

variable {rely : Rely interface}

theorem quiet_ask (q : Request) : rely.Quiet (ask q) :=
  quiet_request (S := interface) q

theorem quiet_fail {α : Type} (message : String) :
    rely.Quiet (fail message : Code α) := quiet_throw _

theorem quiet_require (p : Prop) [Decidable p] (message : String) :
    rely.Quiet (require p message) :=
  quiet_ite (quiet_pure ()) (quiet_fail message)

theorem keeps_acceptPayment {txHash expectedFrom : Text} {expectedId : Nat}
    {reply : Option Receipt × Option Transaction} {page : Page}
    {post : Bool → Page → Prop} {fail : Error → Page → Prop}
    (htrue : ∀ tx, reply.2 = some tx →
      activationPayment reply.1 reply.2 expectedFrom expectedId = .ok true →
      post true (page.confirmPayment ⟨txHash, tx.sender⟩))
    (hfalse :
      activationPayment reply.1 reply.2 expectedFrom expectedId = .ok false →
      post false page)
    (hfail : ∀ error, fail error page) :
    rely.Keeps (acceptPayment txHash expectedFrom expectedId reply) post fail
      page := by
  rw [acceptPayment, keeps_bind, keeps_ofExcept]
  constructor
  · intro ok hok
    cases ok with
    | false => exact hfalse hok
    | true =>
        obtain ⟨tx, htx, _⟩ := sender_of_activationPayment hok
        rw [htx]
        exact htrue tx htx hok
  · intro error _
    exact hfail error

namespace AboutActivations

variable (h : AboutActivations rely)

include h

theorem quiet_update {f : Page → Page}
    (hactivations : ∀ page, (f page).activations = page.activations)
    (hverified : ∀ page, (f page).verified = page.verified) :
    rely.Quiet (modify f : Code Unit) :=
  quiet_modify fun page hinv =>
    h.frame page (f page) (hactivations page) (hverified page) hinv

theorem quiet_enterDesk (id : Nat) : rely.Quiet (enterDesk id) := by
  apply quiet_state.bind
  intro page
  apply Quiet.bind
  · exact h.quiet_update (fun _ => rfl) (fun _ => rfl)
  · intro _
    exact quiet_pure _

theorem quiet_leaveDesk (id : Nat) (prev : Option Nat)
    (pass : Except Error Bool) : rely.Quiet (leaveDesk id prev pass) := by
  have hrestore : rely.Quiet (modify fun page : Page =>
      if prev ≠ none ∧ prev ≠ some id then { page with id := prev }
      else page) :=
    h.quiet_update (fun page => by split <;> rfl) (fun page => by split <;> rfl)
  have hrethrow : rely.Quiet (ofExcept (pass.map fun _ => ()) : Code Unit) :=
    quiet_ofExcept _
  cases pass with
  | ok quoted =>
      apply Quiet.bind
      · exact h.quiet_update (fun _ => rfl) (fun _ => rfl)
      · intro _
        exact hrestore.bind fun _ => hrethrow
  | error error => exact hrestore.bind fun _ => hrethrow

theorem quiet_startAgentDesk (id : Nat) : rely.Quiet (startAgentDesk id) := by
  apply quiet_state.bind
  intro page
  apply quiet_ite
  · apply (h.quiet_enterDesk id).bind
    intro prev
    exact quiet_await fun pass => h.quiet_leaveDesk id prev pass
  · exact quiet_pure ()

theorem quiet_refreshActivation : rely.Quiet refreshActivation := by
  apply quiet_state.bind
  intro page
  split
  next id address hbox hid haddress =>
    split
    · exact quiet_pure ()
    next rec hrec =>
      apply quiet_ite
      · apply quiet_ite
        · apply (h.quiet_enterDesk id).bind
          intro prev
          exact quiet_start _
        · exact quiet_pure ()
      · exact quiet_ite (quiet_start _) (quiet_pure ())
  next => exact quiet_pure ()

theorem quiet_refreshSelected : rely.Quiet refreshSelected := by
  apply quiet_state.bind
  intro page
  exact quiet_ite h.quiet_refreshActivation (quiet_pure ())

theorem quiet_ensureChain : rely.Quiet ensureChain := by
  apply (quiet_ask _).bind
  intro current
  apply Quiet.bind
  · exact h.quiet_update (fun _ => rfl) (fun _ => rfl)
  · intro _
    apply quiet_ite
    · apply Quiet.bind
      · apply (quiet_ask _).handle
        intro error
        exact quiet_ite (quiet_ask _) (quiet_throw _)
      · intro _
        apply (quiet_ask _).bind
        intro chain
        apply Quiet.bind
        · exact h.quiet_update (fun _ => rfl) (fun _ => rfl)
        · intro _
          exact quiet_require _ _
    · exact quiet_pure ()

theorem quiet_connectWallet : rely.Quiet connectWallet := by
  apply (quiet_ask _).bind
  intro accounts
  apply Quiet.bind
  · exact h.quiet_update (fun _ => rfl) (fun _ => rfl)
  · intro _
    exact h.quiet_ensureChain.bind fun _ => h.quiet_refreshSelected

theorem quiet_connectedAddress : rely.Quiet connectedAddress := by
  apply quiet_state.bind
  intro page
  apply quiet_ite
  · apply h.quiet_connectWallet.bind
    intro _
    exact quiet_state.bind fun page => quiet_pure _
  · exact quiet_pure _

omit h in
theorem quiet_requireOwner (id : Nat) : rely.Quiet (requireOwner id) := by
  apply quiet_state.bind
  intro page
  apply (quiet_require _ _).bind
  intro _
  apply (quiet_ask _).bind
  intro own
  apply quiet_state.bind
  intro page'
  cases own with
  | none => exact quiet_throw _
  | some own => exact quiet_ite (quiet_pure _) (quiet_throw _)

theorem quiet_verifyActivationPayment (caller : Caller)
    (txHash expectedFrom : Text) (expectedId : Nat) :
    rely.Quiet
      (verifyActivationPayment caller txHash expectedFrom expectedId) := by
  apply (quiet_ask (.payment caller txHash expectedFrom expectedId)).bind
  intro reply page hinv
  apply keeps_acceptPayment
  · intro tx _ _
    exact h.confirmPayment page _ hinv
  · intro _
    exact hinv
  · intro error
    exact hinv

theorem quiet_openConsole (id : Nat) : rely.Quiet (openConsole id) := by
  apply Quiet.bind
  · exact h.quiet_update (fun _ => rfl) (fun _ => rfl)
  · intro _
    apply h.quiet_refreshActivation.bind
    intro _
    apply quiet_state.bind
    intro page
    apply quiet_ite
    · apply (h.quiet_enterDesk id).bind
      intro prev
      exact quiet_start _
    · exact quiet_pure ()

theorem quiet_route (id : Option Nat) : rely.Quiet (route id) := by
  cases id with
  | none => exact h.quiet_update (fun _ => rfl) (fun _ => rfl)
  | some id => exact h.quiet_openConsole id

theorem quiet_afterRecord (id : Nat) :
    rely.Quiet ((startAgentDesk id).handle (fun _ => pure ()) >>= fun _ =>
      refreshActivation) := by
  apply Quiet.bind
  · apply (h.quiet_startAgentDesk id).handle
    intro error
    exact quiet_pure ()
  · intro _
    exact h.quiet_refreshActivation

theorem quiet_recoverActivationFromTx
    (hrecover : ∀ txHash id, rely.Quiet (recoverPayment txHash id))
    (rawHash : Text) (rawId : Option Text) :
    rely.Quiet (recoverActivationFromTx rawHash rawId) := by
  apply h.quiet_connectedAddress.bind
  intro address
  split
  · exact quiet_pure ()
  · apply h.quiet_ensureChain.bind
    intro _
    apply (quiet_require _ _).bind
    intro _
    apply quiet_state.bind
    intro page
    split
    · exact quiet_fail _
    next id hid =>
      apply (quiet_requireOwner id).bind
      intro _
      exact hrecover _ id

theorem quiet_onActivate
    (hsubmitted : ∀ (page : Page) address id txHash, rely.inv page →
      rely.inv (page.writeActivation address
        (paymentRecord address id txHash false) id))
    (hactivate : ∀ address txHash id,
      rely.Quiet (activatePayment address txHash id))
    (approved : Bool) : rely.Quiet (onActivate approved) := by
  apply quiet_state.bind
  intro page
  apply quiet_ite
  · exact quiet_pure ()
  · apply h.quiet_connectedAddress.bind
    intro address
    split
    · exact quiet_pure ()
    · apply h.quiet_ensureChain.bind
      intro _
      apply quiet_state.bind
      intro page'
      split
      · exact quiet_fail _
      · exact quiet_fail _
      next activationAddress activationId haddress hid =>
        apply (quiet_requireOwner activationId).bind
        intro _
        apply quiet_state.bind
        intro page''
        apply quiet_ite
        · exact h.quiet_refreshActivation
        · apply quiet_ite
          · apply (quiet_ask .accounts).bind
            intro accounts
            apply (quiet_require _ _).bind
            intro _
            apply (quiet_ask (.sendTransaction activationAddress)).bind
            intro txHash
            apply Quiet.bind
            · exact quiet_modify fun page hinv => hsubmitted page _ _ _ hinv
            · intro _
              apply h.quiet_refreshActivation.bind
              intro _
              apply (quiet_ask (.waitForReceipt txHash)).bind
              intro _
              exact hactivate activationAddress txHash activationId
          · exact quiet_pure ()

theorem taskSafe_callback
    (hpending : ∀ id rec,
      rely.TaskSafe (page.callback (.paymentVerified id rec)))
    (callback : Callback) : rely.TaskSafe (page.callback callback) := by
  cases callback with
  | connected =>
      apply taskSafe_of_quiet
      intro reply
      apply (quiet_ofExcept reply).bind
      intro accounts
      apply Quiet.bind
      · exact h.quiet_update (fun _ => rfl) (fun _ => rfl)
      · intro _
        apply (quiet_ask .chainId).bind
        intro chainId
        apply Quiet.bind
        · exact h.quiet_update (fun _ => rfl) (fun _ => rfl)
        · intro _
          exact h.quiet_refreshSelected
  | minted =>
      apply taskSafe_of_quiet
      intro reply
      cases reply with
      | error error => exact quiet_pure ()
      | ok supply =>
          cases supply with
          | none => exact quiet_pure ()
          | some n => exact h.quiet_update (fun _ => rfl) (fun _ => rfl)
  | paymentVerified id rec => exact hpending id rec
  | deskStarted id prev =>
      apply taskSafe_of_quiet
      intro pass
      apply (h.quiet_leaveDesk id prev pass).bind
      intro _
      exact h.quiet_refreshActivation

theorem upheld
    (hsubmitted : ∀ (page : Page) address id txHash, rely.inv page →
      rely.inv (page.writeActivation address
        (paymentRecord address id txHash false) id))
    (hactivate : ∀ address txHash id,
      rely.Quiet (activatePayment address txHash id))
    (hrecover : ∀ txHash id, rely.Quiet (recoverPayment txHash id))
    (hpending : ∀ id rec,
      rely.TaskSafe (page.callback (.paymentVerified id rec))) :
    rely.Upheld page := by
  constructor
  · intro event
    cases event with
    | load box id =>
        apply Quiet.bind
        · exact h.quiet_update (fun _ => rfl) (fun _ => rfl)
        · intro _
          apply (h.quiet_route id).bind
          intro _
          exact (quiet_start _).bind fun _ => quiet_start _
    | navigate id => exact h.quiet_route id
    | accountsChanged accounts =>
        apply Quiet.bind
        · exact h.quiet_update (fun _ => rfl) (fun _ => rfl)
        · intro _
          exact h.quiet_refreshSelected
    | chainChanged chainId =>
        exact h.quiet_update (fun _ => rfl) (fun _ => rfl)
    | connectWallet => exact h.quiet_connectWallet
    | onActivate approved =>
        exact h.quiet_onActivate hsubmitted hactivate approved
    | recoverActivationFromTx rawHash rawId =>
        exact h.quiet_recoverActivationFromTx hrecover rawHash rawId
  · exact h.taskSafe_callback hpending
  · intro page' hinv
    exact h.frame page' page'.reload rfl rfl hinv

end AboutActivations

end Quiet

end IreBlockchain.Brokers
