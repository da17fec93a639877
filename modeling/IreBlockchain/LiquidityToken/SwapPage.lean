import IreBlockchain.Foundation.EventLoop
import IreBlockchain.Foundation.Text
import IreBlockchain.LiquidityToken.SwapQuote

/-!
# The swap page

The handlers of the site as scripts.  The side, the slippage and the input
field are variables of the page, which stay editable while a swap waits for its
quote, for the wallet's chain and for an approval.
-/

namespace IreBlockchain.LiquidityToken.SwapPage

open IreBlockchain.Foundation

/-- The site's configuration and what `ethers` makes of numbers. -/
structure Site where
  token : Address
  router : Address
  weth : Address
  decimals : Nat
  positive : Text → Bool
  parseUnits : Text → Nat → Option Nat
  formatUnits : Nat → Nat → Text

structure Click where
  side : Side
  amt : Nat
  deriving DecidableEq, Repr

structure Transaction where
  side : Side
  amountIn : Nat
  amountOutMin : Nat
  path : List Address
  dst : Address
  deadline : Nat
  deriving DecidableEq, Repr

/-- What `quote` returns, with the call of `getAmountsOut` that it is made of. -/
structure Offer where
  out : Nat
  amountIn : Nat
  path : List Address
  amountOut : Nat
  deriving DecidableEq, Repr

structure Sent where
  click : Click
  offer : Offer
  slip : Nat
  tx : Transaction
  deriving DecidableEq, Repr

/--
The variables of the page.  `sent` is a history that no handler reads: what the
wallet was asked to send.
-/
structure Page where
  side : Side
  slip : Nat
  amtIn : Text
  impactBlocked : Bool
  disabled : Bool
  signer : Bool
  me : Option Address
  qt : Bool
  now : Nat
  sent : List Sent

namespace Page

def loaded : Page where
  side := .buy
  slip := 3
  amtIn := []
  impactBlocked := false
  disabled := false
  signer := false
  me := none
  qt := false
  now := 0
  sent := []

def updateBtn (page : Page) : Page :=
  { page with disabled := page.impactBlocked }

def setSide (page : Page) (side : Side) : Page :=
  updateBtn { page with side := side, impactBlocked := false, amtIn := [] }

def block (page : Page) (blocked : Bool) : Page :=
  updateBtn { page with impactBlocked := blocked }

end Page

def Site.path (site : Site) (side : Side) : List Address :=
  match side with
  | .buy => [site.weth, site.token]
  | .sell => [site.token, site.weth]

def Site.parsedIn (site : Site) (page : Page) : Option Nat :=
  let v := trim page.amtIn
  if v = [] ∨ ¬ site.positive v then none
  else
    match page.side with
    | .buy => (site.parseUnits v 18).filter (· ≠ 0)
    | .sell => (site.parseUnits v site.decimals).filter (· ≠ 0)

/-! ## Requests -/

structure Pool where
  r0 : Nat
  r1 : Nat
  token0 : Address
  deriving DecidableEq, Repr

def Site.reserves (site : Site) (pool : Pool) : Reserves :=
  if pool.token0 = site.weth then ⟨pool.r0, pool.r1⟩ else ⟨pool.r1, pool.r0⟩

/--
What the page waits for.  A request of a swap carries its click, the one for the
pool also what the quote has by then.
-/
inductive Request
  | getAmountsOut (amountIn : Nat) (path : List Address)
  | pool (caller : Option Click) (amt inAfter amountOut : Nat)
  | chainId (caller : Option Click)
  | switchEthereumChain (caller : Option Click)
  | addEthereumChain (caller : Option Click)
  | requestAccounts
  | getSigner
  | getAddress
  | getBalance (account : Address)
  | balanceOf (account : Address)
  | allowance (click : Click) (owner : Address)
  | approve
  | waitApproval (click : Click)
  | send (tx : Transaction)
  | wait
  | turn
  deriving DecidableEq

abbrev Request.Reply : Request → Type
  | .getAmountsOut _ _ => Nat
  | .pool _ _ _ _ => Pool
  | .chainId _ => Text
  | .getAddress => Address
  | .getBalance _ | .balanceOf _ | .allowance _ _ => Nat
  | _ => Unit

structure Error where
  code : Option Int
  deriving DecidableEq

abbrev interface : Interface where
  State := Page
  Request := Request
  Reply := Request.Reply
  Callback := Empty
  Error := Error

abbrev Code := Script interface

open Script

def ask (q : Request) : Code q.Reply := request (S := interface) q

/-! ## Handlers -/

def chainHex : Text := "0x1237".toList

def ensureChain (caller : Option Click) : Code Unit := do
  let current ← ask (.chainId caller)
  if current = chainHex then pure ()
  else
    (ask (.switchEthereumChain caller)).handle fun e =>
      if e.code ≠ some 4902 then .throw e
      else ask (.addEthereumChain caller)

def connect : Code Unit :=
  Script.handle (do
    ask .requestAccounts
    ensureChain none
    ask .getSigner
    modify fun page => { page with signer := true }
    let me ← ask .getAddress
    modify fun page => { page with me := some me }
    modify (·.updateBtn))
    fun _ => pure ()

section Handlers

variable (site : Site)

/-- The side is read again once the router and the pair have answered. -/
def quoteFor (caller : Option Click) (amt : Nat) : Code (Option Offer) := do
  let page ← state
  let inAfter := inAfterFee page.side amt
  let path := site.path page.side
  let amountOut ← ask (.getAmountsOut inAfter path)
  let pool ← ask (.pool caller amt inAfter amountOut)
  let page ← state
  match quoteReplies page.side amt inAfter amountOut (site.reserves pool) with
  | none => .throw ⟨none⟩
  | some q =>
      modify (·.block q.impactBlocked)
      pure (some ⟨q.out, inAfter, path, amountOut⟩)

def quote (caller : Option Click) : Code (Option Offer) := do
  let page ← state
  match site.parsedIn page with
  | none =>
      modify (·.block false)
      pure none
  | some amt =>
      (quoteFor site caller amt).handle fun _ => do
        modify (·.block false)
        pure none

def confirm (tx : Transaction) : Code Unit := do
  ask (.send tx)
  ask .wait
  modify fun page => { page with amtIn := [] }

/-- Send a transaction on the path of the side that is selected now. -/
def send (click : Click) (offer : Offer) (slip deadline : Nat) (side : Side) :
    Code Unit := do
  let page ← state
  match page.me with
  | none => .throw ⟨none⟩
  | some me =>
      let tx : Transaction :=
        { side := side
          amountIn := click.amt
          amountOutMin := minOut offer.out slip
          path := site.path page.side
          dst := me
          deadline := deadline }
      modify fun page =>
        { page with sent := ⟨click, offer, slip, tx⟩ :: page.sent }
      confirm tx

def approveRouter (click : Click) (me : Address) : Code Unit := do
  let allowed ← ask (.allowance click me)
  if allowed < click.amt then do
    ask .approve
    ask (.waitApproval click)

def submit (click : Click) (offer : Offer) (slip deadline : Nat) :
    Code Unit := do
  ensureChain (some click)
  let page ← state
  match page.side, page.me with
  | .buy, _ => send site click offer slip deadline .buy
  | .sell, none => .throw ⟨none⟩
  | .sell, some me => do
      approveRouter click me
      send site click offer slip deadline .sell

def swap : Code Unit := do
  let page ← state
  if page.disabled then pure ()
  else if ¬ page.signer then connect
  else
    match site.parsedIn page with
    | none => pure ()
    | some amt =>
        let click : Click := ⟨page.side, amt⟩
        let offer ← quote site (some click)
        ask .turn
        let page ← state
        match offer with
        | none => pure ()
        | some offer =>
            if offer.out = 0 ∨ page.impactBlocked then pure ()
            else do
              modify fun page => { page with disabled := true }
              (submit site click offer page.slip (page.now + 600)).handle
                fun _ => pure ()
              modify (·.updateBtn)

def fillMax (side : Side) (me : Address) : Code Unit :=
  match side with
  | .sell => do
      let held ← ask (.balanceOf me)
      modify fun page =>
        { page with amtIn := site.formatUnits held site.decimals }
  | .buy => do
      let held ← ask (.getBalance me)
      let rest := held - 5 * 10 ^ 14
      modify fun page =>
        { page with
          amtIn := if 0 < rest then site.formatUnits rest 18 else "0".toList }

def maxAmount : Code Unit := do
  let page ← state
  match page.me with
  | none => connect
  | some me =>
      Script.handle (do
        fillMax site page.side me
        let _ ← quote site none)
        fun _ => pure ()

inductive Event
  | setSide (side : Side)
  | setSlip (slip : Fin 101)
  | input (value : Text)
  | timer
  | tick (now : Nat)
  | maxAmount
  | connect
  | swap
  deriving DecidableEq

def handler : Event → Code Unit
  | .setSide side => modify (·.setSide side)
  | .setSlip slip => modify fun page => { page with slip := slip.val }
  | .input value => modify fun page => { page with amtIn := value, qt := true }
  | .timer => do
      let page ← state
      if page.qt then
        modify fun page => { page with qt := false }
        let _ ← quote site none
  | .tick now => modify fun page => { page with now := now }
  | .maxAmount => maxAmount site
  | .connect => connect
  | .swap => swap site

def page : EventLoop interface Event where
  handler := handler site
  callback := nofun
  unload page := { Page.loaded with sent := page.sent }

end Handlers

open Rely

/-! ## What was clicked -/

structure Offer.Of (site : Site) (click : Click) (offer : Offer) : Prop where
  amountIn : offer.amountIn = inAfterFee click.side click.amt
  path : offer.path = site.path click.side
  out : offer.out = quoteOut click.side offer.amountOut

/-- The transaction is what was clicked, with a minimum from a quote for it. -/
structure Sent.AsClicked (site : Site) (s : Sent) : Prop where
  side : s.tx.side = s.click.side
  path : s.tx.path = site.path s.click.side
  amountIn : s.tx.amountIn = s.click.amt
  offer : s.offer.Of site s.click
  amountOutMin : s.tx.amountOutMin = minOut s.offer.out s.slip

def SubmitsClicked (site : Site) (page : Page) : Prop :=
  ∀ s ∈ page.sent, s.AsClicked site

section Runs

variable (site : Site)

/--
Where a swap reads the side again, it is still the one that was clicked: when
the pool's reserves make a quote, when the wallet is on the chain, and when the
allowance is there.
-/
def sideOnArrival : (q : Request) → Page → Except Error q.Reply → Bool
  | .pool (some click) amt inAfter amountOut, page, .ok pool =>
      ((quoteReplies page.side amt inAfter amountOut
        (site.reserves pool)).all fun q => q.out = 0) ||
        page.side = click.side
  | .chainId (some click), page, .ok current =>
      current ≠ chainHex || page.side = click.side
  | .switchEthereumChain (some click), page, .ok _ => page.side = click.side
  | .addEthereumChain (some click), page, .ok _ => page.side = click.side
  | .allowance click _, page, .ok allowed =>
      allowed < click.amt || page.side = click.side
  | .waitApproval click, page, .ok _ => page.side = click.side
  | _, _, _ => true

def sameSide : Rely interface where
  inv := SubmitsClicked site
  allowed := fun q page reply => sideOnArrival site q page reply = true

instance (q : Request) (page : Page) (reply : Except Error q.Reply) :
    Decidable ((sameSide site).allowed q page reply) :=
  inferInstanceAs (Decidable (sideOnArrival site q page reply = true))

variable {site}

theorem SubmitsClicked.frame {page page' : Page} (h : SubmitsClicked site page)
    (hsent : page'.sent = page.sent) : SubmitsClicked site page' := by
  rw [SubmitsClicked, hsent]
  exact h

theorem quiet_ask (q : Request) : (sameSide site).Quiet (ask q) :=
  quiet_request (S := interface) q

theorem keeps_ask {q : Request} {page : Page}
    {post : q.Reply → Page → Prop} {fail : Error → Page → Prop}
    (hinv : SubmitsClicked site page)
    (hok : ∀ page' reply, SubmitsClicked site page' →
      sideOnArrival site q page' (.ok reply) = true → post reply page')
    (herror : ∀ e page', SubmitsClicked site page' → fail e page') :
    (sameSide site).Keeps (ask q) post fail page :=
  keeps_request (S := interface) hinv hok herror

theorem quiet_block (blocked : Bool) :
    (sameSide site).Quiet (modify (S := interface) (·.block blocked)) :=
  fun _ hinv => hinv

theorem quiet_ensureChain (caller : Option Click) :
    (sameSide site).Quiet (ensureChain caller) := by
  apply (quiet_ask _).bind
  intro current
  apply quiet_ite
  · exact quiet_pure ()
  · apply (quiet_ask _).handle
    intro e
    exact quiet_ite (quiet_throw e) (quiet_ask _)

theorem quiet_connect : (sameSide site).Quiet connect := by
  apply Quiet.handle
  · apply (quiet_ask _).bind
    intro _
    apply (quiet_ensureChain none).bind
    intro _
    apply (quiet_ask _).bind
    intro _
    apply Quiet.bind
    · exact quiet_modify fun _ hinv => hinv
    · intro _
      apply (quiet_ask _).bind
      intro me
      apply Quiet.bind
      · exact quiet_modify fun _ hinv => hinv
      · exact fun _ => quiet_modify fun _ hinv => hinv
  · exact fun _ => quiet_pure ()

theorem quiet_quoteFor (caller : Option Click) (amt : Nat) :
    (sameSide site).Quiet (quoteFor site caller amt) := by
  apply quiet_state.bind
  intro page
  apply (quiet_ask _).bind
  intro amountOut
  apply (quiet_ask _).bind
  intro pool
  apply quiet_state.bind
  intro page
  split
  · exact quiet_throw _
  · exact (quiet_block _).bind fun _ => quiet_pure _

theorem quiet_quote (caller : Option Click) :
    (sameSide site).Quiet (quote site caller) := by
  apply quiet_state.bind
  intro page
  split
  · exact (quiet_block false).bind fun _ => quiet_pure none
  · apply (quiet_quoteFor caller _).handle
    exact fun _ => (quiet_block false).bind fun _ => quiet_pure none

theorem quiet_fillMax (side : Side) (me : Address) :
    (sameSide site).Quiet (fillMax site side me) := by
  cases side with
  | sell =>
      apply (quiet_ask _).bind
      exact fun held => quiet_modify fun _ hinv => hinv
  | buy =>
      apply (quiet_ask _).bind
      exact fun held => quiet_modify fun _ hinv =>
        SubmitsClicked.frame hinv rfl

theorem quiet_maxAmount : (sameSide site).Quiet (maxAmount site) := by
  apply quiet_state.bind
  intro page
  split
  · exact quiet_connect
  · apply Quiet.handle
    · apply (quiet_fillMax _ _).bind
      exact fun _ => (quiet_quote none).bind fun _ => quiet_pure ()
    · exact fun _ => quiet_pure ()

theorem quiet_confirm (tx : Transaction) :
    (sameSide site).Quiet (confirm tx) := by
  apply (quiet_ask _).bind
  intro _
  apply (quiet_ask _).bind
  exact fun _ => quiet_modify fun _ hinv => hinv

/-! ## A swap -/

theorem keeps_quoteFor {click : Click} {page : Page}
    (hinv : SubmitsClicked site page) (hside : page.side = click.side) :
    (sameSide site).Keeps (quoteFor site (some click) click.amt)
      (fun result page => SubmitsClicked site page ∧
        ∀ offer, result = some offer → offer.out ≠ 0 → offer.Of site click)
      (fun _ => SubmitsClicked site) page := by
  rw [quoteFor, keeps_bind, keeps_state]
  dsimp only
  rw [keeps_bind]
  apply (quiet_ask _).keeps hinv
  · intro amountOut page₁ hinv₁
    rw [keeps_bind]
    apply keeps_ask hinv₁
    · intro page₂ pool hinv₂ harrival
      rw [keeps_bind, keeps_state]
      cases hq : quoteReplies page₂.side click.amt
          (inAfterFee page.side click.amt) amountOut (site.reserves pool) with
      | none => exact hinv₂
      | some q =>
          dsimp only
          rw [keeps_bind]
          refine ⟨hinv₂, ?_⟩
          intro offer heq hout
          obtain rfl := Option.some.inj heq
          have hsame : page₂.side = click.side := by
            simp only [sideOnArrival, hq, Option.all_some, Bool.or_eq_true,
              decide_eq_true_eq] at harrival
            exact harrival.resolve_left hout
          have hpaid := quoteReplies_out hq
          rw [hsame] at hpaid
          exact ⟨by rw [hside], by rw [hside], hpaid⟩
    · exact fun _ _ h => h
  · exact fun _ _ h => h

theorem keeps_quote {click : Click} {page : Page}
    (hinv : SubmitsClicked site page) (hside : page.side = click.side)
    (hamt : site.parsedIn page = some click.amt) :
    (sameSide site).Keeps (quote site (some click))
      (fun result page => SubmitsClicked site page ∧
        ∀ offer, result = some offer → offer.out ≠ 0 → offer.Of site click)
      (fun _ => SubmitsClicked site) page := by
  rw [quote, keeps_bind, keeps_state]
  simp only [hamt]
  rw [keeps_handle]
  apply (keeps_quoteFor hinv hside).mono
  · exact fun _ _ h => h
  · intro _ page' hinv'
    rw [keeps_bind]
    exact ⟨hinv', nofun⟩

theorem keeps_ensureChain {click : Click} {page : Page}
    (hinv : SubmitsClicked site page) :
    (sameSide site).Keeps (ensureChain (some click))
      (fun _ page => SubmitsClicked site page ∧ page.side = click.side)
      (fun _ => SubmitsClicked site) page := by
  rw [ensureChain, keeps_bind]
  apply keeps_ask hinv
  · intro page₁ current hinv₁ harrival
    split
    next hcurrent =>
      simp only [sideOnArrival, hcurrent, ne_eq, not_true, decide_false,
        Bool.false_or, decide_eq_true_eq] at harrival
      exact ⟨hinv₁, harrival⟩
    next =>
      rw [keeps_handle]
      apply keeps_ask hinv₁
      · intro page₂ _ hinv₂ harrival
        exact ⟨hinv₂, of_decide_eq_true harrival⟩
      · intro e page₂ hinv₂
        split
        · exact hinv₂
        · apply keeps_ask hinv₂
          · intro page₃ _ hinv₃ harrival
            exact ⟨hinv₃, of_decide_eq_true harrival⟩
          · exact fun _ _ h => h
  · exact fun _ _ h => h

theorem keeps_approveRouter {click : Click} {me : Address} {page : Page}
    (hinv : SubmitsClicked site page) :
    (sameSide site).Keeps (approveRouter click me)
      (fun _ page => SubmitsClicked site page ∧ page.side = click.side)
      (fun _ => SubmitsClicked site) page := by
  rw [approveRouter, keeps_bind]
  apply keeps_ask hinv
  · intro page₁ allowed hinv₁ harrival
    split
    next =>
      rw [keeps_bind]
      apply keeps_ask hinv₁
      · intro page₂ _ hinv₂ _
        apply keeps_ask hinv₂
        · intro page₃ _ hinv₃ harrival
          exact ⟨hinv₃, of_decide_eq_true harrival⟩
        · exact fun _ _ h => h
      · exact fun _ _ h => h
    next hle =>
      simp only [sideOnArrival, hle, decide_false, Bool.false_or,
        decide_eq_true_eq] at harrival
      exact ⟨hinv₁, harrival⟩
  · exact fun _ _ h => h

theorem keeps_send {click : Click} {offer : Offer} {page : Page}
    (slip deadline : Nat) (hinv : SubmitsClicked site page)
    (hside : page.side = click.side) (hoffer : offer.Of site click) :
    (sameSide site).Keeps (send site click offer slip deadline click.side)
      (fun _ => SubmitsClicked site) (fun _ => SubmitsClicked site) page := by
  rw [send, keeps_bind, keeps_state]
  split
  next => exact hinv
  next me hme =>
    rw [keeps_bind, keeps_modify]
    have hsent : SubmitsClicked site
        { page with
          sent := ⟨click, offer, slip, ⟨click.side, click.amt,
            minOut offer.out slip, site.path page.side, me, deadline⟩⟩ ::
            page.sent } := by
      intro s hs
      rcases List.mem_cons.mp hs with rfl | hmem
      · exact ⟨rfl, by rw [hside], rfl, hoffer, rfl⟩
      · exact hinv s hmem
    exact quiet_confirm _ _ hsent

theorem keeps_submit {click : Click} {offer : Offer} {slip deadline : Nat}
    {page : Page} (hinv : SubmitsClicked site page)
    (hoffer : offer.Of site click) :
    (sameSide site).Keeps (submit site click offer slip deadline)
      (fun _ => SubmitsClicked site) (fun _ => SubmitsClicked site) page := by
  rw [submit, keeps_bind]
  apply (keeps_ensureChain hinv).mono
  · rintro _ page₁ ⟨hinv₁, hside₁⟩
    rw [keeps_bind, keeps_state]
    split
    next hbuy =>
      have hclick : click.side = .buy := hside₁.symm.trans hbuy
      have hsend := keeps_send slip deadline hinv₁ hside₁ hoffer
      rwa [hclick] at hsend
    next => exact hinv₁
    next me hsell hme =>
      have hclick : click.side = .sell := hside₁.symm.trans hsell
      rw [keeps_bind]
      apply (keeps_approveRouter hinv₁).mono
      · rintro _ page₂ ⟨hinv₂, hside₂⟩
        have hsend := keeps_send slip deadline hinv₂ hside₂ hoffer
        rwa [hclick] at hsend
      · exact fun _ _ h => h
  · exact fun _ _ h => h

theorem quiet_swap : (sameSide site).Quiet (swap site) := by
  intro page hinv
  rw [swap, keeps_bind, keeps_state]
  split
  · exact hinv
  · split
    · exact quiet_connect page hinv
    · split
      next => exact hinv
      next amt hamt =>
        dsimp only
        rw [keeps_bind]
        let click : Click := ⟨page.side, amt⟩
        have hclick : page.side = click.side := rfl
        apply (keeps_quote hinv hclick hamt).mono
        · rintro result page₁ ⟨hinv₁, hresult⟩
          rw [keeps_bind]
          apply keeps_ask hinv₁
          · intro page₂ _ hinv₂ _
            rw [keeps_bind, keeps_state]
            split
            next => exact hinv₂
            next offer =>
              split
              next => exact hinv₂
              next hready =>
                rw [not_or] at hready
                have hoffer := hresult offer rfl hready.1
                rw [keeps_bind, keeps_modify, keeps_bind, keeps_handle]
                have hdisabled : SubmitsClicked site
                    { page₂ with disabled := true } := hinv₂
                apply (keeps_submit hdisabled hoffer).mono
                · exact fun _ _ h => h
                · exact fun _ _ h => h
          · exact fun _ _ h => h
        · exact fun _ _ h => h

/-! ## Runs of the page -/

theorem submitsClicked_loaded : SubmitsClicked site .loaded :=
  fun _ hs => absurd hs List.not_mem_nil

theorem upheld : (sameSide site).Upheld (page site) := by
  constructor
  · intro event
    cases event with
    | timer =>
        apply quiet_state.bind
        intro page
        apply quiet_ite
        · apply Quiet.bind
          · exact quiet_modify fun _ hinv => hinv
          · exact fun _ => (quiet_quote none).bind fun _ => quiet_pure ()
        · exact quiet_pure ()
    | maxAmount => exact quiet_maxAmount
    | connect => exact quiet_connect
    | swap => exact quiet_swap
    | _ => exact quiet_modify fun _ hinv => hinv
  · exact nofun
  · exact fun _ hinv => hinv

/--
Whatever the user edits while a swap waits, the transaction it sends has the
direction, the path and the amount that were clicked and a minimum from a quote
for them, if the side is the clicked one whenever a swap reads it again.
-/
theorem run_submits_clicked (site : Site) (labels : List (Step interface Event))
    (hadmits : Guarded (page site).step (sameSide site).Admits ⟨.loaded, []⟩
      labels) :
    SubmitsClicked site (run (page site).step ⟨.loaded, []⟩ labels).state :=
  upheld.run submitsClicked_loaded hadmits

end Runs

/-! ## A swap and a change of the side -/

def sampleSite : Site where
  token := 1
  router := 2
  weth := 9
  decimals := 18
  positive _ := true
  parseUnits v n := some (v.length * 10 ^ n)
  formatUnits _ _ := []

def sampleAnswers : (q : Request) → Except Error q.Reply
  | .getAmountsOut _ _ => .ok (99 * 10 ^ 16)
  | .pool _ _ _ _ => .ok ⟨10 ^ 24, 10 ^ 24, 9⟩
  | .chainId _ => .ok chainHex
  | .switchEthereumChain _ | .addEthereumChain _ => .ok ()
  | .requestAccounts | .getSigner => .ok ()
  | .getAddress => .ok 5
  | .getBalance _ | .balanceOf _ => .ok 0
  | .allowance _ _ => .ok (10 ^ 30)
  | .approve | .waitApproval _ | .send _ | .wait | .turn => .ok ()

def answer : Step interface Event := .deliver 0 sampleAnswers

def clickedBuy : List (Step interface Event) :=
  [.fire .connect, answer, answer, answer, answer,
    .fire (.input "1".toList), .fire .swap]

theorem run_submits_clicked_sample :
    let final := (run (page sampleSite).step ⟨.loaded, []⟩
      (clickedBuy ++ List.replicate 4 answer)).state
    final.sent.map (·.tx.side) = [.buy] ∧ SubmitsClicked sampleSite final :=
  ⟨by decide +kernel, run_submits_clicked sampleSite
    (clickedBuy ++ List.replicate 4 answer) (by decide +kernel)⟩

def switchedRun : List (Step interface Event) :=
  clickedBuy ++ [.fire (.setSide .sell)] ++ List.replicate 5 answer

/-- A buy was clicked, and as many tokens are sold as ethers were to be spent. -/
theorem buy_submitted_as_sell :
    let final := (run (page sampleSite).step ⟨.loaded, []⟩ switchedRun).state
    final.sent.map (fun s => (s.click.side, s.tx.side, s.tx.amountIn)) =
        [(.buy, .sell, 10 ^ 18)] ∧
      ¬ SubmitsClicked sampleSite final := by
  have hsent : (run (page sampleSite).step ⟨.loaded, []⟩ switchedRun).state.sent.map
      (fun s => (s.click.side, s.tx.side, s.tx.amountIn)) =
        [(.buy, .sell, 10 ^ 18)] := by decide +kernel
  refine ⟨hsent, ?_⟩
  intro h
  have hsides : ∀ e ∈ (run (page sampleSite).step ⟨.loaded, []⟩
      switchedRun).state.sent.map
        (fun s => (s.click.side, s.tx.side, s.tx.amountIn)),
      e.2.1 = e.1 := by
    intro e he
    obtain ⟨s, hs, rfl⟩ := List.mem_map.mp he
    exact (h s hs).side
  rw [hsent] at hsides
  exact absurd (hsides _ List.mem_cons_self) (by decide)

end IreBlockchain.LiquidityToken.SwapPage
