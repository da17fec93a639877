import IreBlockchain.Explorer.WalletPage

/-!
# The balance that is shown

A balance reply is kept whatever the address has become in the meantime.  A
number is drawn at the end of a tick only, right after its own reply.
-/

namespace IreBlockchain.Explorer.Wallet

open IreBlockchain.Foundation Script Rely

/-- Every number that was drawn online came back for the address it was under. -/
def ShowsOwnBalance (page : Page) : Prop :=
  ∀ r ∈ page.renders, r.online = true → ∀ amount, r.number = some amount →
    (r.address, amount) ∈ page.returned

def NoFalseBalance (page : Page) : Prop :=
  page.address ≠ [] → isIreAddr page.address = false → page.balance = none

structure OwnBalance (page : Page) : Prop where
  shown : ShowsOwnBalance page
  unshown : NoFalseBalance page

/--
The address a tick has asked for is still there, or there is none; and a reply
to the form finds an address or nothing.
-/
def sameAddressOnArrival : (q : Request) → Page → Except Unit q.Reply → Bool
  | .balance .tick addr, page, .ok _ =>
      page.address = [] || page.address = addr
  | .balance .submit _, page, .ok _ =>
      page.address = [] || isIreAddr page.address
  | _, _, _ => true

def ownBalance : Rely interface where
  inv := OwnBalance
  allowed := fun q page reply => sameAddressOnArrival q page reply = true

instance (q : Request) (page : Page) (reply : Except Unit q.Reply) :
    Decidable (ownBalance.allowed q page reply) :=
  inferInstanceAs (Decidable (sameAddressOnArrival q page reply = true))

/-! ## What the updates of the page keep -/

theorem ownBalance_blank : OwnBalance .blank :=
  ⟨fun _ hr => absurd hr List.not_mem_nil, fun _ _ => rfl⟩

theorem balanceView_eq_some {page : Page} {amount : Text}
    (honline : page.online = true) (h : page.balanceView.1 = some amount) :
    page.address ≠ [] ∧ page.balance = some amount := by
  rw [Page.balanceView] at h
  split at h
  next => cases h
  next hne =>
    split at h
    next => cases h
    next =>
      split at h
      next => cases h
      next balance hbalance => exact ⟨hne, hbalance.trans h⟩

theorem ShowsOwnBalance.frame {page page' : Page} (h : ShowsOwnBalance page)
    (hrenders : page'.renders = page.renders)
    (hreturned : page'.returned = page.returned) : ShowsOwnBalance page' := by
  rw [ShowsOwnBalance, hrenders, hreturned]
  exact h

theorem ShowsOwnBalance.renderBalance {page : Page} (h : ShowsOwnBalance page)
    (hnumber : page.online = true → page.address ≠ [] →
      ∀ amount, page.balance = some amount →
        (page.address, amount) ∈ page.returned) :
    ShowsOwnBalance page.renderBalance := by
  intro r hr honline amount hamount
  cases List.mem_cons.mp hr with
  | inl heq =>
      rw [heq] at honline hamount ⊢
      obtain ⟨hne, hbalance⟩ := balanceView_eq_some honline hamount
      exact hnumber honline hne amount hbalance
  | inr hmem => exact h r hmem honline amount hamount

theorem ShowsOwnBalance.receiveBalance {page : Page}
    (h : ShowsOwnBalance page) (addr amount : Text) :
    ShowsOwnBalance (page.receiveBalance addr amount) := by
  intro r hr honline shown hshown
  exact List.mem_cons_of_mem _ (h r hr honline shown hshown)

theorem OwnBalance.render_none {page : Page} (h : ShowsOwnBalance page)
    (hbalance : page.balance = none) : OwnBalance page.renderBalance := by
  refine ⟨h.renderBalance ?_, fun _ _ => hbalance⟩
  intro _ _ amount hsome
  rw [hbalance] at hsome
  cases hsome

theorem isSpace_of_isAddrChar {c : Char} (h : isAddrChar c = true) :
    isSpace c = false := by
  have hcode := isAddrChar_iff.mp h
  simp only [isSpace, Bool.or_eq_false_iff, Bool.and_eq_false_iff,
    decide_eq_false_iff_not]
  omega

theorem trim_of_isIreAddr {addr : Text} (h : isIreAddr addr = true) :
    trim addr = addr := by
  have hspace : ∀ c ∈ addr, isSpace c = false := fun c hc =>
    isSpace_of_isAddrChar (IreAddr.isAddrChar_of_mem ⟨addr, h⟩ c hc)
  have hfront : addr.dropWhile isSpace = addr := by
    cases addr with
    | nil => rfl
    | cons c addr =>
        exact List.dropWhile_cons_of_neg (by simp [hspace c List.mem_cons_self])
  rw [trim, hfront, List.rdropWhile_eq_self_iff]
  intro hne
  simp [hspace _ (List.getLast_mem hne)]

/-! ## Runs of the page -/

section Handlers

variable (fmt : NumberFormat) (sha256Hex : Bytes → Text)

theorem keeps_lookupBalance {caller : Caller} {addr : Text} {page : Page}
    {post : Unit → Page → Prop} {fail : Unit → Page → Prop}
    (hinv : OwnBalance page)
    (hinvalid : isIreAddr addr = false →
      ∀ note, post () (page.setBalance none note))
    (hreply : isIreAddr addr = true → ∀ page' reply, OwnBalance page' →
      sameAddressOnArrival (.balance caller addr) page' (.ok reply) = true →
      post () (page'.receiveBalance addr (amountOf reply)))
    (herror : isIreAddr addr = true → ∀ page' note, OwnBalance page' →
      post () (page'.setBalance none note)) :
    ownBalance.Keeps (lookupBalance caller addr) post fail page := by
  rw [lookupBalance]
  split
  next hnone =>
    have hfalse : isIreAddr addr = false := by
      cases hnone with
      | inl hnil =>
          rw [hnil]
          rfl
      | inr hinvalid => exact Bool.eq_false_iff.mpr hinvalid
    exact hinvalid hfalse _
  next haddr =>
    have htrue : isIreAddr addr = true := by
      by_contra hfalse
      exact haddr (Or.inr hfalse)
    rw [keeps_handle]
    refine ⟨hinv, ?_⟩
    intro page' reply hinv' hallowed
    cases reply with
    | ok reply => exact hreply htrue page' reply hinv' hallowed
    | error error => exact herror htrue page' _ hinv'

theorem quiet_ask (q : Request) : ownBalance.Quiet (ask q) :=
  quiet_request (S := interface) q

theorem keeps_showTick {page : Page} (hinv : OwnBalance page)
    (status : Status) (minH : Nat) (rawPending : List Bytes)
    (blocks : List Block) {post : Unit → Page → Prop}
    {fail : Unit → Page → Prop} (hpost : ∀ page, OwnBalance page → post () page) :
    ownBalance.Keeps (showTick fmt sha256Hex status minH rawPending blocks)
      post fail page := by
  rw [showTick, keeps_bind, keeps_state]
  dsimp only
  split
  next hviewer =>
    rw [keeps_bind]
    apply keeps_lookupBalance hinv
    · intro hfalse
      rw [hviewer.2] at hfalse
      cases hfalse
    · intro _ page' reply hinv' hallowed
      have hshown := hinv'.shown.receiveBalance page.address (amountOf reply)
      simp only [sameAddressOnArrival, Bool.or_eq_true, decide_eq_true_eq]
        at hallowed
      apply hpost
      constructor
      · apply ShowsOwnBalance.renderBalance
        · exact hshown.frame rfl rfl
        · intro _ hne amount hamount
          cases hamount
          cases hallowed with
          | inl hnil => exact absurd hnil hne
          | inr hsame =>
              exact List.mem_cons.mpr (Or.inl (congrArg (·, _) hsame))
      · intro hne hfalse
        cases hallowed with
        | inl hnil => exact absurd hnil hne
        | inr hsame =>
            have hvalid : isIreAddr page'.address = true :=
              hsame ▸ hviewer.2
            exact absurd hvalid (Bool.eq_false_iff.mp hfalse)
    · intro _ page' note hinv'
      apply hpost
      exact OwnBalance.render_none (hinv'.shown.frame rfl rfl) rfl
  next hviewer =>
    apply hpost
    constructor
    · apply ShowsOwnBalance.renderBalance
      · exact hinv.shown.frame rfl rfl
      · intro _ hne amount hamount
        have hfalse : isIreAddr page.address = false := by
          rw [← Bool.not_eq_true]
          intro hvalid
          exact hviewer ⟨hne, hvalid⟩
        have hnone : page.balance = none := hinv.unshown hne hfalse
        change page.balance = some amount at hamount
        rw [hnone] at hamount
        cases hamount
    · exact hinv.unshown

theorem keeps_goOffline {page : Page} (hinv : OwnBalance page) :
    ownBalance.Keeps goOffline (fun _ => OwnBalance) (fun _ => OwnBalance)
      page := by
  change OwnBalance (Page.renderBalance _)
  constructor
  · apply ShowsOwnBalance.renderBalance
    · exact hinv.shown.frame rfl rfl
    · intro honline
      cases honline
  · exact hinv.unshown

theorem quiet_tickScan (reply : Except Unit Status) :
    ownBalance.Quiet (tickScan fmt sha256Hex reply) := by
  apply Quiet.handle
  · rw [scan]
    apply Quiet.bind
    · apply quiet_ofExcept
    · intro status
      apply quiet_ite
      · exact quiet_throw ()
      · apply (quiet_ask .unconfirmedTxs).bind
        intro rawPending
        apply (quiet_ask (.blocks _ _)).bind
        intro blocks page hinv
        exact keeps_showTick fmt sha256Hex hinv _ _ _ _ fun _ hinv' => hinv'
  · intro _ page hinv
    exact keeps_goOffline hinv

theorem quiet_tick : ownBalance.Quiet (tick fmt sha256Hex) :=
  quiet_await (quiet_tickScan fmt sha256Hex)

theorem quiet_submit (value : Text) :
    ownBalance.Quiet (submit fmt sha256Hex value) := by
  intro page hinv
  rw [submit, keeps_bind, keeps_modify]
  split
  next hinvalid =>
    change OwnBalance (Page.renderBalance _)
    exact OwnBalance.render_none (hinv.shown.frame rfl rfl) rfl
  next haddr =>
    rw [keeps_bind, keeps_state, keeps_bind]
    have htick := quiet_tick fmt sha256Hex
    have hinv' : OwnBalance (page.setAddress (trim value)) := by
      refine ⟨hinv.shown, ?_⟩
      intro hne hinvalid
      change isIreAddr (trim (trim value)) = false at hinvalid
      by_cases hvalid : isIreAddr (trim value) = true
      · rw [trim_of_isIreAddr hvalid, hvalid] at hinvalid
        cases hinvalid
      · have hnil : trim value = [] := by
          by_contra hvalue
          exact haddr ⟨hvalue, hvalid⟩
        rw [Page.setAddress, hnil] at hne
        exact absurd rfl hne
    apply keeps_lookupBalance hinv'
    · intro _ note
      apply htick
      exact ⟨hinv.shown, fun _ _ => rfl⟩
    · intro _ page' reply hinv' hallowed
      simp only [sameAddressOnArrival, Bool.or_eq_true, decide_eq_true_eq]
        at hallowed
      apply htick
      refine ⟨hinv'.shown.receiveBalance _ _, ?_⟩
      intro hne hinvalid
      cases hallowed with
      | inl hnil => exact absurd hnil hne
      | inr hvalid => exact absurd hvalid (Bool.eq_false_iff.mp hinvalid)
    · intro _ page' note hinv'
      apply htick
      exact ⟨hinv'.shown, fun _ _ => rfl⟩

theorem quiet_load (saved query : Text) :
    ownBalance.Quiet (handler fmt sha256Hex (.load saved query)) := by
  have hstart : OwnBalance
      (if saved = [] then .blank else Page.blank.setAddress saved) ∧
      (if saved = [] then Page.blank
        else Page.blank.setAddress saved).balance = none := by
    split
    · exact ⟨ownBalance_blank, rfl⟩
    · exact ⟨⟨ownBalance_blank.shown, fun _ _ => rfl⟩, rfl⟩
  intro _ _
  change OwnBalance (if trim query = [] then _ else _)
  split
  · exact hstart.1
  · exact ⟨hstart.1.shown, fun _ _ => hstart.2⟩

theorem upheld : ownBalance.Upheld (page fmt sha256Hex) := by
  constructor
  · intro event
    cases event with
    | load saved query => exact quiet_load fmt sha256Hex saved query
    | interval => exact quiet_tick fmt sha256Hex
    | submit value => exact quiet_submit fmt sha256Hex value
  · intro callback
    cases callback with
    | tick => exact taskSafe_of_quiet (quiet_tickScan fmt sha256Hex)
  · intro _ _
    exact ownBalance_blank

/--
Whatever the order of ticks, submissions and replies, a number that is drawn
online is a balance that came back for the address it is drawn under, if no
successful reply finds an address that it may not be kept for.
-/
theorem run_shows_own_balance (labels : List (Step interface Event))
    (hadmits : Guarded (page fmt sha256Hex).step ownBalance.Admits
      ⟨.blank, []⟩ labels) :
    ShowsOwnBalance
      (run (page fmt sha256Hex).step ⟨.blank, []⟩ labels).state :=
  ((upheld fmt sha256Hex).run ownBalance_blank hadmits).shown

end Handlers

/-! ## Two addresses -/

def bankAnswers : (q : Request) → Except Unit q.Reply
  | .status => .ok ⟨1, false⟩
  | .unconfirmedTxs => .ok []
  | .blocks _ _ => .ok []
  | .balance _ addr =>
      .ok (some (if addr = addrA.text then "5".toList else "7".toList))

abbrev samplePage : EventLoop interface Event :=
  page literalFormat fun _ => []

def loadA (n : Nat) : List (Step interface Event) :=
  .fire (.load addrA.text []) ::
    List.replicate n (.deliver 0 bankAnswers)

theorem run_shows_own_balance_sample :
    let final := (run samplePage.step ⟨.blank, []⟩
      (loadA 4 ++ [.fire (.submit addrB.text)])).state
    final.renders.map (·.number) = [some "5".toList] ∧
      ShowsOwnBalance final :=
  ⟨by decide +kernel, run_shows_own_balance literalFormat (fun _ => [])
    (loadA 4 ++ [.fire (.submit addrB.text)]) (by decide +kernel)⟩

def changedRun : List (Step interface Event) :=
  loadA 3 ++ [.fire (.submit addrB.text), .deliver 0 bankAnswers]

theorem stale_balance_shown :
    let final := (run samplePage.step ⟨.blank, []⟩ changedRun).state
    final.renders.map (fun r => (r.address, r.online, r.number)) =
        [(addrB.text, true, some "5".toList)] ∧
      ¬ ShowsOwnBalance final := by
  have hrenders : (run samplePage.step ⟨.blank, []⟩ changedRun).state.renders =
      [⟨addrB.text, true, some "5".toList, "IRE · uire on ire-1".toList⟩] := by
    decide +kernel
  have hreturned :
      (run samplePage.step ⟨.blank, []⟩ changedRun).state.returned =
        [(addrA.text, "5".toList)] := by decide +kernel
  refine ⟨by rw [hrenders]; rfl, ?_⟩
  intro h
  have hmem := h _ (hrenders ▸ List.mem_cons_self) rfl "5".toList rfl
  rw [hreturned] at hmem
  exact absurd hmem (by decide)

end IreBlockchain.Explorer.Wallet
